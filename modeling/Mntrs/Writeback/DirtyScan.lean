import Mathlib.Data.List.TakeWhile
import Mntrs.Base.Segments
import Mntrs.Writeback.Worker

/-!
# The sidecars of a cache directory

`mntrs list-dirty` (`src/src/cmd/dirty.rs:30-90`) and the recovery at start-up
(`src/src/writeback.rs:254-351`) read the same directory, whatever it holds: the first reports the
first line of each `.dirty` file, the second uploads to the path that is the whole text, and it
removes sidecars while it goes on through the directory.
-/

namespace Mntrs.DirtyScan

open Base

/-- What a directory entry holds: UTF-8 text, or something else, of which reading a first line may
still give text. -/
inductive Content where
  | text (t : Path)
  | other (firstLine : Option Path)
deriving DecidableEq, Repr

/-- An entry of the cache directory: its name, what it holds, when it was changed, and whether it
can be removed. -/
structure CacheEntry where
  name : Bytes
  content : Content
  mtime : Nat
  removable : Bool
deriving DecidableEq, Repr

/-- The cache directory: its entries in the order they are read, and the size of what a name in it
stands for. -/
structure CacheDir where
  entries : List CacheEntry
  metadata : Bytes → Option Nat
  nodup : (entries.map CacheEntry.name).Nodup

/-- `Path::file_stem` and `Path::extension` of a name with an extension. -/
def splitExtension (name : Bytes) : Option (Bytes × Bytes) :=
  let pieces := name.splitOn 46
  let before := spell 46 pieces.dropLast
  if before = [] then none else some (before, pieces.getLastD [])

/-- The write buffer of a sidecar; `none` for other names. -/
def bufferOf (name : Bytes) : Option Bytes :=
  (splitExtension name).bind
    (fun (stem, extension) ↦ if extension = utf8 "dirty".toList then some stem else none)

/-! ### The two readers -/

/-- `DirtyRow`. -/
structure DirtyRow where
  sidecarPath : Bytes
  remote : Path
  writeBufferPath : Bytes
  cacheExists : Bool
  cacheSize : Nat
  sidecarMtime : Nat
deriving DecidableEq, Repr

/-- The first line of a text. -/
def firstLine (t : Path) : Path := t.takeWhile (· ≠ '\n')

/-- `read_remote_path`, with the default for an error. The carriage return that `lines` takes off
goes with the white space. -/
def readRemotePath : Content → Path
  | .text t => trim (firstLine t)
  | .other line => trim (line.getD [])

/-- The row of an entry. -/
def dirtyRow (d : CacheDir) (e : CacheEntry) : Option DirtyRow :=
  (bufferOf e.name).map (fun buffer ↦
    ⟨e.name, readRemotePath e.content, buffer, (d.metadata buffer).isSome,
      (d.metadata buffer).getD 0, e.mtime⟩)

/-- The order of paths in one directory: the bytes of the names. -/
def sortKey (r : DirtyRow) : List Nat := r.sidecarPath.map UInt8.toNat

/-- `scan_dirty_sidecars`. -/
def scanDirtySidecars (d : CacheDir) : List DirtyRow :=
  (d.entries.filterMap (dirtyRow d)).insertionSort (fun a b ↦ sortKey a ≤ sortKey b)

/-- A task that recovery sends. -/
structure RecoveredTask where
  remotePath : Path
  writeBufferPath : Bytes
deriving DecidableEq, Repr

/-- How far the recovery has come: the sidecars it removes, those that are gone, what it has sent
and its counts. -/
structure Recovery where
  removed : List Bytes
  gone : List Bytes
  sent : List RecoveredTask
  stats : RecoveryStats

/-- One entry of the recovery loop; `sender` is whether there is a sender and its receiver
lives. -/
def recoverEntry (d : CacheDir) (sender : Option Bool) (r : Recovery) (e : CacheEntry) :
    Recovery :=
  match bufferOf e.name with
  | none => r
  | some buffer =>
    if d.metadata buffer = none ∨ buffer ∈ r.gone then
      { r with
        removed := r.removed ++ [e.name]
        gone := if e.removable then r.gone ++ [e.name] else r.gone
        stats := { r.stats with orphanSidecarsRemoved := r.stats.orphanSidecarsRemoved + 1 } }
    else
      match e.content, sender with
      | .other _, _ => { r with stats := { r.stats with readFailed := r.stats.readFailed + 1 } }
      | .text _, none => { r with stats := { r.stats with noSender := r.stats.noSender + 1 } }
      | .text _, some false =>
        { r with stats := { r.stats with sendFailed := r.stats.sendFailed + 1 } }
      | .text t, some true =>
        { r with
          sent := r.sent ++ [⟨trim t, buffer⟩]
          stats := { r.stats with recovered := r.stats.recovered + 1 } }

/-- `recover_dirty_sidecars`. -/
def recoverDirtySidecars (d : CacheDir) (sender : Option Bool) : Recovery :=
  d.entries.foldl (recoverEntry d sender) ⟨[], [], [], ⟨0, 0, 0, 0, 0⟩⟩

/-- The two agree: a row for each sidecar, in the order of the names; the rows without a cache file
are those that recovery removes; and a row shows the path that recovery uploads to. -/
structure Agrees (d : CacheDir) : Prop where
  rows : ((scanDirtySidecars d).map DirtyRow.sidecarPath).Perm
    ((d.entries.map CacheEntry.name).filter (fun n ↦ (bufferOf n).isSome))
  sorted : (scanDirtySidecars d).Pairwise (fun a b ↦ sortKey a ≤ sortKey b)
  orphans : ∀ row ∈ scanDirtySidecars d,
    row.cacheExists = false ↔ row.sidecarPath ∈ (recoverDirtySidecars d (some true)).removed
  remotes : ∀ row ∈ scanDirtySidecars d, ∀ task ∈ (recoverDirtySidecars d (some true)).sent,
    task.writeBufferPath = row.writeBufferPath → row.remote = task.remotePath

/-! ### Names and lines -/

variable {d : CacheDir} {e : CacheEntry} {es : List CacheEntry} {n buffer : Bytes} {r : Recovery}

theorem eq_of_splitExtension {stem extension : Bytes}
    (h : splitExtension n = some (stem, extension)) : n = stem ++ 46 :: extension := by
  unfold splitExtension at h
  simp only at h
  split at h <;> cases h
  rename_i hstem
  have hname : spell 46 (n.splitOn 46) = n := List.intercalate_splitOn 46
  rcases List.eq_nil_or_concat' (n.splitOn 46) with hnil | ⟨init, last, hsplit⟩
  · simp [hnil] at hstem
  · rw [hsplit] at hstem
    have hinit : init ≠ [] := by
      rintro rfl
      simp at hstem
    rw [hsplit, spell_snoc hinit] at hname
    rw [hsplit, List.dropLast_concat, List.getLastD_concat]
    exact hname.symm

/-- A sidecar is named after its write buffer. -/
theorem eq_of_bufferOf (h : bufferOf n = some buffer) :
    n = buffer ++ 46 :: utf8 "dirty".toList := by
  obtain ⟨⟨stem, extension⟩, hsplit, hdirty⟩ := Option.bind_eq_some_iff.mp h
  simp only [Option.ite_none_right_eq_some, Option.some.injEq] at hdirty
  rw [eq_of_splitExtension hsplit, hdirty.1, hdirty.2]

theorem bufferOf_inj {n' : Bytes} (h : bufferOf n = some buffer) (h' : bufferOf n' = some buffer) :
    n = n' := by
  rw [eq_of_bufferOf h, eq_of_bufferOf h']

/-- There is nothing but white space after the first line. -/
def OneLine (t : Path) : Prop := ∀ c ∈ t.dropWhile (· ≠ '\n'), isWhiteSpace c = true

theorem countP_dropWhile (l : Path) :
    (l.dropWhile isWhiteSpace).countP (fun c ↦ !isWhiteSpace c) =
      l.countP (fun c ↦ !isWhiteSpace c) := by
  induction l with
  | nil => rfl
  | cons c l ih => cases hc : isWhiteSpace c <;> simp [hc, ih]

/-- Trimming takes off white space only. -/
theorem countP_trim (t : Path) :
    (trim t).countP (fun c ↦ !isWhiteSpace c) = t.countP (fun c ↦ !isWhiteSpace c) := by
  rw [trim, List.countP_reverse, countP_dropWhile, List.countP_reverse, countP_dropWhile]

theorem trim_append_of_white {a b : Path} (hb : ∀ c ∈ b, isWhiteSpace c) :
    trim (a ++ b) = trim a := by
  have hbrev : ∀ c ∈ b.reverse, isWhiteSpace c = true := fun c hc ↦ hb c (List.mem_reverse.mp hc)
  unfold trim
  rw [List.dropWhile_append]
  split
  · next hempty =>
    have hnil : a.dropWhile isWhiteSpace = [] := by simpa using hempty
    have hbnil : b.dropWhile isWhiteSpace = [] := List.dropWhile_eq_nil_iff.mpr hb
    rw [hnil, hbnil]
  · rw [List.reverse_append, List.dropWhile_append_of_pos hbrev]

/-- The first line says what the text says exactly when the text has one line. -/
theorem trim_firstLine_eq_iff (t : Path) : trim (firstLine t) = trim t ↔ OneLine t := by
  have hcut : firstLine t ++ t.dropWhile (· ≠ '\n') = t := List.takeWhile_append_dropWhile
  constructor
  · intro h c hc
    have hcount := countP_trim t
    rw [← h, countP_trim] at hcount
    conv_rhs at hcount => rw [← hcut, List.countP_append]
    have hzero : (t.dropWhile (· ≠ '\n')).countP (fun c ↦ !isWhiteSpace c) = 0 := by omega
    simpa using List.countP_eq_zero.mp hzero c hc
  · intro h
    conv_rhs => rw [← hcut, trim_append_of_white h]

/-! ### What recovery does with each sidecar -/

/-- The sidecar has no cache file when the directory is read. -/
def Orphan (d : CacheDir) (e : CacheEntry) : Prop :=
  ∃ buffer, bufferOf e.name = some buffer ∧ d.metadata buffer = none

/-- The task of a sidecar with text and a cache file. -/
def Sends (d : CacheDir) (e : CacheEntry) (task : RecoveredTask) : Prop :=
  ∃ buffer t, bufferOf e.name = some buffer ∧ d.metadata buffer ≠ none ∧ e.content = .text t ∧
    task = ⟨trim t, buffer⟩

/-- A sidecar that recovery removes is itself the cache file of a sidecar that comes later. -/
def Undermined (d : CacheDir) : Prop :=
  ∃ before e between e' after, d.entries = before ++ e :: between ++ e' :: after ∧
    Orphan d e ∧ e.removable = true ∧ bufferOf e'.name = some e.name ∧ d.metadata e.name ≠ none

/-- How the recovery goes through entries. -/
def recover (d : CacheDir) (es : List CacheEntry) : Recovery :=
  es.foldl (recoverEntry d (some true)) ⟨[], [], [], ⟨0, 0, 0, 0, 0⟩⟩

theorem recover_concat (es : List CacheEntry) (e : CacheEntry) :
    recover d (es ++ [e]) = recoverEntry d (some true) (recover d es) e := by
  rw [recover, List.foldl_concat]
  rfl

/-- What one entry adds. -/
inductive Visit (d : CacheDir) (r : Recovery) (e : CacheEntry) : Recovery → Prop
  | passed (hname : bufferOf e.name = none) : Visit d r e r
  | removed (buffer : Bytes) (stats : RecoveryStats) (hname : bufferOf e.name = some buffer)
      (hgone : d.metadata buffer = none ∨ buffer ∈ r.gone) :
    Visit d r e ⟨r.removed ++ [e.name], if e.removable then r.gone ++ [e.name] else r.gone, r.sent,
      stats⟩
  | unread (buffer : Bytes) (line : Option Path) (stats : RecoveryStats)
      (hname : bufferOf e.name = some buffer)
      (hhere : d.metadata buffer ≠ none ∧ buffer ∉ r.gone) (hcontent : e.content = .other line) :
    Visit d r e ⟨r.removed, r.gone, r.sent, stats⟩
  | sent (buffer : Bytes) (t : Path) (stats : RecoveryStats) (hname : bufferOf e.name = some buffer)
      (hhere : d.metadata buffer ≠ none ∧ buffer ∉ r.gone) (hcontent : e.content = .text t) :
    Visit d r e ⟨r.removed, r.gone, r.sent ++ [⟨trim t, buffer⟩], stats⟩

theorem visit (d : CacheDir) (r : Recovery) (e : CacheEntry) :
    Visit d r e (recoverEntry d (some true) r e) := by
  unfold recoverEntry
  cases hname : bufferOf e.name with
  | none => exact .passed hname
  | some buffer =>
    simp only
    split
    · next hgone => exact .removed buffer _ hname hgone
    · next hhere =>
      rw [not_or] at hhere
      cases hcontent : e.content with
      | text t => exact .sent buffer t _ hname hhere hcontent
      | other line => exact .unread buffer line _ hname hhere hcontent

/-- What is removed or gone stays so. -/
theorem Visit.mono {r' : Recovery} (h : Visit d r e r') :
    (∀ n ∈ r.removed, n ∈ r'.removed) ∧ ∀ n ∈ r.gone, n ∈ r'.gone := by
  cases h with
  | removed =>
    refine ⟨fun n hn ↦ by simp [hn], fun n hn ↦ ?_⟩
    split <;> simp [hn]
  | _ => exact ⟨fun _ hn ↦ hn, fun _ hn ↦ hn⟩

theorem mem_removed_append {n : Bytes} (after : List CacheEntry)
    (h : n ∈ (recover d es).removed) : n ∈ (recover d (es ++ after)).removed := by
  induction after using List.reverseRecOn with
  | nil => simpa using h
  | append_singleton after e ih =>
    rw [← List.append_assoc, recover_concat]
    exact (visit d _ e).mono.1 n ih

theorem mem_gone_append {n : Bytes} (after : List CacheEntry)
    (h : n ∈ (recover d es).gone) : n ∈ (recover d (es ++ after)).gone := by
  induction after using List.reverseRecOn with
  | nil => simpa using h
  | append_singleton after e ih =>
    rw [← List.append_assoc, recover_concat]
    exact (visit d _ e).mono.2 n ih

/-- A sidecar whose cache file is missing when its turn comes is removed. -/
theorem mem_recoverEntry (hname : bufferOf e.name = some buffer)
    (hgone : d.metadata buffer = none ∨ buffer ∈ r.gone) :
    e.name ∈ (recoverEntry d (some true) r e).removed ∧
      (e.removable = true → e.name ∈ (recoverEntry d (some true) r e).gone) := by
  simp only [recoverEntry, hname, if_pos hgone]
  exact ⟨by simp, fun h ↦ by simp [h]⟩

/-- Where a sidecar is undermined, recovery removes one that had a cache file. -/
theorem exists_removed_of_undermined (h : Undermined d) :
    ∃ e ∈ d.entries, (∃ buffer, bufferOf e.name = some buffer ∧ d.metadata buffer ≠ none) ∧
      e.name ∈ (recover d d.entries).removed := by
  obtain ⟨before, e, between, e', after, hentries, ⟨buffer, hbuffer, hnone⟩, hremovable, hname,
    hhere⟩ := h
  refine ⟨e', by simp [hentries], ⟨e.name, hname, hhere⟩, ?_⟩
  have hfirst : e.name ∈ (recover d (before ++ [e])).gone := by
    rw [recover_concat]
    exact (mem_recoverEntry hbuffer (.inl hnone)).2 hremovable
  have hgone : e.name ∈ (recover d (before ++ [e] ++ between)).gone :=
    mem_gone_append between hfirst
  have hlater : e'.name ∈ (recover d (before ++ [e] ++ between ++ [e'])).removed := by
    rw [recover_concat]
    exact (mem_recoverEntry hname (.inr hgone)).1
  have hsplit : d.entries = before ++ [e] ++ between ++ [e'] ++ after := by simp [hentries]
  rw [hsplit]
  exact mem_removed_append after hlater

/-- Recovery has done with each entry what the directory asked for when it was read. -/
structure Tracks (d : CacheDir) (es : List CacheEntry) (r : Recovery) : Prop where
  removed : ∀ n, n ∈ r.removed ↔ ∃ e ∈ es, e.name = n ∧ Orphan d e
  gone : ∀ n ∈ r.gone, ∃ e ∈ es, e.name = n ∧ Orphan d e ∧ e.removable = true
  sent : ∀ task, task ∈ r.sent ↔ ∃ e ∈ es, Sends d e task

private theorem exists_concat {P : CacheEntry → Prop} :
    (∃ x ∈ es ++ [e], P x) ↔ (∃ x ∈ es, P x) ∨ P e := by
  simp [or_and_right, exists_or]

theorem Tracks.pass (h : Tracks d es r) (horphan : ¬ Orphan d e)
    (hsends : ∀ task, ¬ Sends d e task) (stats : RecoveryStats) :
    Tracks d (es ++ [e]) ⟨r.removed, r.gone, r.sent, stats⟩ where
  removed n := by simp [h.removed, horphan]
  gone n hn := exists_concat.mpr (.inl (h.gone n hn))
  sent task := by simp [h.sent, hsends]

/-- An entry whose cache file recovery has not removed is treated as the directory asked. -/
theorem Tracks.step (h : Tracks d es r)
    (hno : ∀ buffer, bufferOf e.name = some buffer → d.metadata buffer ≠ none → buffer ∉ r.gone) :
    Tracks d (es ++ [e]) (recoverEntry d (some true) r e) := by
  have hvisit := visit d r e
  revert hvisit
  generalize recoverEntry d (some true) r e = r'
  rintro (hname | ⟨buffer, stats, hname, hgone⟩ | ⟨buffer, line, stats, hname, hhere, hcontent⟩ |
    ⟨buffer, t, stats, hname, hhere, hcontent⟩)
  · exact h.pass (by simp [Orphan, hname]) (by simp [Sends, hname]) r.stats
  · have hnone : d.metadata buffer = none := by
      by_contra hne
      exact hno buffer hname hne (hgone.resolve_left hne)
    have horphan : Orphan d e := ⟨buffer, hname, hnone⟩
    have hsends : ∀ task, ¬ Sends d e task := by simp [Sends, hname, hnone]
    refine ⟨fun n ↦ by simp [h.removed, horphan, eq_comm], fun n hn ↦ ?_,
      fun task ↦ by simp [h.sent, hsends]⟩
    split at hn
    · next hremovable =>
      rcases List.mem_append.mp hn with hn | hn
      · exact exists_concat.mpr (.inl (h.gone n hn))
      · exact exists_concat.mpr (.inr ⟨(List.mem_singleton.mp hn).symm, horphan, hremovable⟩)
    · exact exists_concat.mpr (.inl (h.gone n hn))
  · exact h.pass (by simp [Orphan, hname, hhere.1]) (by simp [Sends, hcontent]) stats
  · have horphan : ¬ Orphan d e := by simp [Orphan, hname, hhere.1]
    have hsends : ∀ task, Sends d e task ↔ task = ⟨trim t, buffer⟩ := by
      simp [Sends, hname, hhere.1, hcontent]
    exact ⟨fun n ↦ by simp [h.removed, horphan],
      fun n hn ↦ exists_concat.mpr (.inl (h.gone n hn)),
      fun task ↦ by simp [h.sent, hsends]⟩

/-- Without undermined sidecars the whole directory is treated as it asked. -/
theorem tracks_recover (hno : ¬ Undermined d) : Tracks d d.entries (recover d d.entries) := by
  suffices hall : ∀ es after, d.entries = es ++ after → Tracks d es (recover d es) from
    hall d.entries [] (by simp)
  intro es
  induction es using List.reverseRecOn with
  | nil => exact fun _ _ ↦ ⟨by simp [recover], by simp [recover], by simp [recover]⟩
  | append_singleton es e ih =>
    intro after hentries
    have hprev := ih (e :: after) (by simpa using hentries)
    rw [recover_concat]
    refine hprev.step fun buffer hname hhere hgone ↦ hno ?_
    obtain ⟨x, hx, rfl, horphan, hremovable⟩ := hprev.gone buffer hgone
    obtain ⟨before, between, rfl⟩ := List.append_of_mem hx
    exact ⟨before, x, between, e, after, by simpa using hentries, horphan, hremovable, hname,
      hhere⟩

/-! ### When the two agree -/

theorem mem_scanDirtySidecars {row : DirtyRow} :
    row ∈ scanDirtySidecars d ↔ ∃ e ∈ d.entries, dirtyRow d e = some row := by
  rw [scanDirtySidecars, List.mem_insertionSort, List.mem_filterMap]

theorem dirtyRow_eq_some {row : DirtyRow} (h : dirtyRow d e = some row) :
    bufferOf e.name = some row.writeBufferPath ∧ row.sidecarPath = e.name ∧
      row.remote = readRemotePath e.content ∧
      row.cacheExists = (d.metadata row.writeBufferPath).isSome := by
  obtain ⟨buffer, hname, rfl⟩ := Option.map_eq_some_iff.mp h
  exact ⟨hname, rfl, rfl, rfl⟩

theorem eq_of_name {e' : CacheEntry} (he : e ∈ d.entries) (he' : e' ∈ d.entries)
    (h : e.name = e'.name) : e = e' :=
  List.inj_on_of_nodup_map d.nodup he he' h

/-- Every sidecar has one row, in the order of the names. -/
theorem scan_rows (d : CacheDir) :
    ((scanDirtySidecars d).map DirtyRow.sidecarPath).Perm
      ((d.entries.map CacheEntry.name).filter (fun n ↦ (bufferOf n).isSome)) ∧
    (scanDirtySidecars d).Pairwise (fun a b ↦ sortKey a ≤ sortKey b) := by
  constructor
  · have hrows : (d.entries.filterMap (dirtyRow d)).map DirtyRow.sidecarPath =
        (d.entries.map CacheEntry.name).filter (fun n ↦ (bufferOf n).isSome) := by
      induction d.entries with
      | nil => rfl
      | cons e es ih => cases hname : bufferOf e.name <;> simp [dirtyRow, hname, ← ih]
    rw [← hrows]
    exact (List.perm_insertionSort _ _).map _
  ·     exact List.pairwise_insertionSort _ _

/-- The listing of sidecars and the recovery agree exactly when no sidecar is undermined and each
sidecar with text and a cache file has one line. -/
theorem scan_agrees_iff (d : CacheDir) :
    Agrees d ↔ ¬ Undermined d ∧ ∀ e ∈ d.entries, ∀ buffer t, bufferOf e.name = some buffer →
      d.metadata buffer ≠ none → e.content = .text t → OneLine t := by
  constructor
  · intro h
    have hno : ¬ Undermined d := by
      intro hunder
      obtain ⟨e, he, ⟨buffer, hname, hhere⟩, hremoved⟩ := exists_removed_of_undermined hunder
      have hrow : dirtyRow d e = some ⟨e.name, readRemotePath e.content, buffer,
          (d.metadata buffer).isSome, (d.metadata buffer).getD 0, e.mtime⟩ := by
        simp [dirtyRow, hname]
      have horphan := (h.orphans _ (mem_scanDirtySidecars.mpr ⟨e, he, hrow⟩)).mpr hremoved
      simp [hhere] at horphan
    refine ⟨hno, fun e he buffer t hname hhere hcontent ↦ ?_⟩
    have hrow : dirtyRow d e = some ⟨e.name, readRemotePath e.content, buffer,
        (d.metadata buffer).isSome, (d.metadata buffer).getD 0, e.mtime⟩ := by
      simp [dirtyRow, hname]
    have htask : ⟨trim t, buffer⟩ ∈ (recover d d.entries).sent :=
      ((tracks_recover hno).sent _).mpr ⟨e, he, buffer, t, hname, hhere, hcontent, rfl⟩
    have hremote := h.remotes _ (mem_scanDirtySidecars.mpr ⟨e, he, hrow⟩) _ htask rfl
    rw [hcontent] at hremote
    exact (trim_firstLine_eq_iff t).mp hremote
  · rintro ⟨hno, hlines⟩
    have htracks := tracks_recover hno
    refine ⟨(scan_rows d).1, (scan_rows d).2, fun row hrow ↦ ?_, fun row hrow task htask hsame ↦ ?_⟩
    · obtain ⟨e, he, hrow⟩ := mem_scanDirtySidecars.mp hrow
      obtain ⟨hname, hpath, -, hexists⟩ := dirtyRow_eq_some hrow
      rw [hexists, hpath, Option.isSome_eq_false_iff, Option.isNone_iff_eq_none]
      refine Iff.trans ?_ (htracks.removed e.name).symm
      constructor
      · exact fun hnone ↦ ⟨e, he, rfl, row.writeBufferPath, hname, hnone⟩
      · rintro ⟨e', he', hsame, buffer, hname', hnone⟩
        rw [hsame, hname, Option.some.injEq] at hname'
        rwa [hname']
    · obtain ⟨e, he, hrow⟩ := mem_scanDirtySidecars.mp hrow
      obtain ⟨hname, -, hremote, -⟩ := dirtyRow_eq_some hrow
      obtain ⟨e', he', buffer, t, hname', hhere, hcontent, rfl⟩ := (htracks.sent task).mp htask
      rw [← hsame] at hname
      cases eq_of_name he he' (bufferOf_inj hname hname')
      rw [hremote, hcontent]
      exact (trim_firstLine_eq_iff t).mpr (hlines e he buffer t hname' hhere hcontent)

/-- A cache directory with one sidecar and its cache file. -/
def oneSidecar (t : Path) : CacheDir where
  entries := [⟨utf8 "x".toList, .other none, 0, true⟩, ⟨utf8 "x.dirty".toList, .text t, 0, true⟩]
  metadata n := if n = utf8 "x".toList then some 3 else none
  nodup := by
    show [utf8 "x".toList, utf8 "x.dirty".toList].Nodup
    decide

/-- The second line of a sidecar's text is part of the path for recovery only. -/
theorem second_line_not_listed :
    (scanDirtySidecars (oneSidecar "a\nb".toList)).map DirtyRow.remote = ["a".toList] ∧
    (recoverDirtySidecars (oneSidecar "a\nb".toList) (some true)).sent.map
      RecoveredTask.remotePath = ["a\nb".toList] := by
  decide

/-! ### The mount's recovery -/

/-- The sidecar of a write buffer as the mount's state has it: whether the buffer is still there,
and the text, unless it cannot be read. -/
structure Shows (fs : MntrsFs) (unreadable : CacheName → Bool) (n : CacheName) (d : CacheDir)
    (r : Recovery) (e : CacheEntry) : Prop where
  missing : fs.disk.exists? n = false ↔ ∃ buffer, bufferOf e.name = some buffer ∧
    (d.metadata buffer = none ∨ buffer ∈ r.gone)
  sidecar : (bufferOf e.name).isSome
  text : ∃ t, fs.disk.dirty n = some t ∧
    if unreadable n then ∃ line, e.content = .other line else e.content = .text t

/-- The loop over the directory does with an entry what the mount's recovery does with the sidecar:
it counts the same and sends the same path. -/
theorem recoverEntry_of_shows {cfg : Config} {fs : MntrsFs} {unreadable : CacheName → Bool}
    {n : CacheName} (h : Shows fs unreadable n d r e) :
    let next := recoverEntry d (if fs.writebackSender then some fs.receiverAlive else none) r e
    let mount := recoverSidecar cfg unreadable fs r.stats n
    mount.2 = next.stats ∧ ∃ sent, next.sent = r.sent ++ sent ∧
      mount.1.writeback.chan = fs.writeback.chan ++ sent.map (fun task ↦
        ⟨inoRecoverySentinel, task.remotePath, n, none, cfg.cacheMode.deleteCacheOnSuccess,
          0⟩) := by
  obtain ⟨buffer, hname⟩ := Option.isSome_iff_exists.mp h.sidecar
  obtain ⟨t, hdirty, hcontent⟩ := h.text
  have hmissing := h.missing
  simp only [hname, Option.some.injEq, exists_eq_left'] at hmissing
  simp only [recoverEntry, recoverSidecar, hname, hdirty, ← hmissing]
  split
  · exact ⟨rfl, [], by simp⟩
  cases hread : unreadable n with
  | true =>
    obtain ⟨line, hline⟩ : ∃ line, e.content = .other line := by simpa [hread] using hcontent
    simp only [hline, if_true]
    exact ⟨trivial, [], by simp⟩
  | false =>
    have hline : e.content = .text t := by simpa [hread] using hcontent
    simp only [hline]
    cases fs.writebackSender <;> cases fs.receiverAlive
    case true.true => exact ⟨rfl, [⟨trim t, buffer⟩], rfl, rfl⟩
    all_goals exact ⟨rfl, [], by simp⟩

end Mntrs.DirtyScan

import Mntrs.Fs.ReadExact
import Mntrs.Fs.RenameEffects

/-!
# The content a rename moves

What `do_rename` promises for the bytes of the source: after a rename that goes through, reads
of the destination return the latest content the source had, and the backend holds it there.
The source's latest content may be in its cache file only, as long as the backend has nothing
older under its name.
-/

namespace Mntrs

open Base

/-- The latest content of a path: the off-mode buffer with bytes the backend does not have,
else the cache file, else the object. -/
def latestContent (cfg : Config) (fs : MntrsFs) (p : Path) : Option Bytes :=
  let buffered := ((fs.offModeBuffers p).map fs.buffers).bind
    (fun buf ↦ if buf.dirty then some buf.data else none)
  (buffered.or (MntrsFs.cacheFile cfg fs p)).or (fs.backend p)

/-- A rename meets a known source with latest content `w`, of which the backend holds either
the same or nothing, and a destination without local leftovers. -/
structure RenameReady (cfg : Config) (fs : MntrsFs) (src dst : Path) (ino : Ino) (w : Bytes) :
    Prop where
  ne : src ≠ dst
  names : cfg.writeBufferPath src ≠ cfg.writeBufferPath dst
  entry : ∃ e, fs.inodes.lookup ino = some e ∧ e.path = src ∧ e.size = w.length
  unique : ∀ i e, fs.inodes.lookup i = some e → e.path = src → i = ino
  content : latestContent cfg fs src = some w
  uploaded : fs.backend src = some w ∨ fs.backend src = none
  settled : ∀ p, p = src ∨ p = dst → ∀ b, fs.offModeBuffers p = some b →
    (fs.buffers b).dirty = false
  mem : ∀ i data, fs.memCache ino i = some data →
    data = slice w (i * cacheBlockSize) ((i + 1) * cacheBlockSize)
  dstFile : fs.disk.whole (cfg.writeBufferPath dst) = none
  dstBlocks : ∀ i, fs.disk.block (cfg.writeBufferPath dst) i = none
  dstQueue : deleteQueued fs dst = false
  deleter : ∀ d, fs.concurrentDeleter = some d → d.WellNumbered

/-- The backend renames only what it has, and denies an object only where there is none. -/
structure RenameEnv.Truthful (env : RenameEnv) (fs : MntrsFs) (src : Path) : Prop where
  rename : env.rename = none → (fs.backend src).isSome
  read : env.read = some .notFound → fs.backend src = none

/-- Nothing is left of a path but, at most, its object. -/
structure GoneLocally (cfg : Config) (fs : MntrsFs) (p : Path) : Prop where
  inode : ∀ i e, fs.inodes.lookup i = some e → e.path ≠ p
  reverse : fs.pathToIno p = none
  attrs : fs.attrCache p = none
  cacheFile : fs.disk.whole (cfg.writeBufferPath p) = none
  sidecar : fs.disk.dirty (cfg.writeBufferPath p) = none

/-- The content of the source is at the destination: the name leads to the source's inode, reads
of it return the content, the backend holds it, and the source is gone. -/
structure ContentMoved (cfg : Config) (src dst : Path) (ino : Ino) (w : Bytes)
    (fs' : MntrsFs) : Prop where
  found : fs'.pathToIno dst = some ino
  reads : ReadsAs cfg fs' ino w
  object : fs'.backend dst = some w
  gone : GoneLocally cfg fs' src

namespace RenameReady

variable {cfg : Config} {fs : MntrsFs} {src dst : Path} {ino : Ino} {w : Bytes}

variable (h : RenameReady cfg fs src dst ino w)
include h

theorem cacheFile_eq {data : Bytes} (hdata : MntrsFs.cacheFile cfg fs src = some data) :
    data = w := by
  have hbuffered : ((fs.offModeBuffers src).map fs.buffers).bind
      (fun buf ↦ if buf.dirty then some buf.data else none) = none := by
    cases hb : fs.offModeBuffers src with
    | none => rfl
    | some b => simp [h.settled src (.inl rfl) b hb]
  have hcontent := h.content
  simp only [latestContent, hbuffered, hdata, Option.none_or, Option.some_or] at hcontent
  exact Option.some.inj hcontent

theorem findInoByPath_eq : (findInoByPath fs src).1 = some ino := by
  obtain ⟨e, he, hpath, -⟩ := h.entry
  cases hfound : (findInoByPath fs src).1 with
  | none => exact absurd hpath (findInoByPath_none hfound he)
  | some i =>
    obtain ⟨e', he', hpath'⟩ := findInoByPath_some hfound
    rw [h.unique i e' he' hpath']

theorem payload_eq {env : RenameEnv} {bytes : Bytes} (hbytes : RenamePayload cfg fs src env bytes) :
    bytes = w := by
  cases hbytes with
  | object hobject =>
    rcases h.uploaded with hw | hnone
    · exact Option.some.inj (hobject.symm.trans hw)
    · simp [hnone] at hobject
  | cached _ hcache => exact h.cacheFile_eq hcache

/-- A rename that meets no cache file at the destination does not take the orphan path. -/
theorem not_orphan : orphanFastPath cfg fs src dst = false := by
  simp [orphanFastPath, Disk.exists?, h.dstFile]

/-- After a backend part that reports success the content is at the destination, and no object
at the source unless the delete that follows a copy was not carried out. -/
theorem objects {env : RenameEnv} (htruth : env.Truthful fs src)
    {r : Except IoError Bool × MntrsFs} (houtcome : RenameOutcome cfg fs src dst env r)
    (hr : r.1 = .ok true) :
    r.2.backend dst = some w ∧
      (r.2.backend src = none ∨
        env.rename = some .unsupported ∧ deleteLands fs src env.delete = false) := by
  cases houtcome with
  | orphan horphan => simp [h.not_orphan] at horphan
  | renamed hrename =>
    have hsrc : fs.backend src = some w := by
      rcases h.uploaded with hw | hnone
      · exact hw
      · have := htruth.rename hrename
        simp [hnone] at this
    exact ⟨renameObjects_dst dst hsrc, .inl (renameObjects_src hsrc h.ne)⟩
  | copied bytes hrename _ hbytes =>
    obtain rfl := h.payload_eq hbytes
    have hqueue : deleteQueued (putObject fs dst bytes) dst = false := h.dstQueue
    constructor
    · rw [deleteBackendStrict_spares _ _ h.ne.symm hqueue]
      simp [putObject]
    · by_cases hlands : deleteLands fs src env.delete = true
      · have hlands' : deleteLands (putObject fs dst bytes) src env.delete = true :=
          (@deleteLands_congr fs (putObject fs dst bytes) rfl src env.delete).trans hlands
        exact .inl (deleteBackendStrict_removes "rename_fallback" hlands' h.deleter)
      · exact .inr ⟨hrename, by simpa using hlands⟩
  | refused _ => cases hr
  | failed r backend _ hne => exact absurd hr hne

end RenameReady

theorem whole_migrate (d : Disk) {cpathSrc cpathDst : CacheName} (hne : cpathSrc ≠ cpathDst)
    (hdst : d.whole cpathDst = none) :
    (d.migrate cpathSrc cpathDst).whole cpathDst = d.whole cpathSrc ∧
      (d.migrate cpathSrc cpathDst).whole cpathSrc = none := by
  unfold Disk.migrate
  cases hsrc : d.whole cpathSrc with
  | none =>
    simp [Disk.exists?, hsrc, hdst, Disk.removeWhole, hne.symm]
  | some f =>
    simp [Disk.exists?, hsrc, hdst, hne.symm]

theorem migrate_frame (d : Disk) (cpathSrc cpathDst : CacheName) :
    ∃ whole, d.migrate cpathSrc cpathDst = { d with whole := whole } := by
  unfold Disk.migrate
  split <;> exact ⟨_, rfl⟩

/-- The local part, run on a backend that holds the content at the destination, moves the
content. -/
theorem RenameReady.contentMoved {cfg : Config} {fs mid : MntrsFs} {src dst : Path} {ino : Ino}
    {w : Bytes} (h : RenameReady cfg fs src dst ino w)
    (hframe : ∃ backend deleter tombs, mid =
      { fs with
        backend := backend
        concurrentDeleter := deleter
        deleteTombstones := tombs })
    (hobject : mid.backend dst = some w) :
    ContentMoved cfg src dst ino w (renameLocal cfg mid src dst) := by
  have hroot := renameLocal_rootMoved cfg mid h.ne
  obtain ⟨backend, deleter, tombs, rfl⟩ := hframe
  set mid : MntrsFs := { fs with
    backend := backend
    concurrentDeleter := deleter
    deleteTombstones := tombs } with hmid
  have hfound : (findInoByPath mid src).1 = some ino :=
    (@findInoByPath_congr fs mid rfl rfl src).1.trans h.findInoByPath_eq
  obtain ⟨e, he, hpath, hmoved, hreverse⟩ := hroot.inode ino hfound
  obtain ⟨dirCache, hlocal⟩ := renameLocal_eq cfg mid src dst
  obtain ⟨hwholeDst, hwholeSrc⟩ := whole_migrate fs.disk h.names h.dstFile
  obtain ⟨whole, hdisk⟩ := migrate_frame fs.disk (cfg.writeBufferPath src)
    (cfg.writeBufferPath dst)
  rw [hdisk] at hwholeDst hwholeSrc
  have hinode := migrateInode_some dst hfound
  rw [hinode] at hlocal
  have hdisk' : (renameLocal cfg mid src dst).disk =
      ({ fs.disk with whole := whole } : Disk).removeDirty (cfg.writeBufferPath src) := by
    rw [hlocal, ← hdisk]
  have hholds : Holds cfg (renameLocal cfg mid src dst) dst ino w := {
    entry := by
      obtain ⟨e', he', hpath', hlength⟩ := h.entry
      obtain rfl : e = e' := by
        have he'' : mid.inodes.lookup ino = some e' := he'
        simpa [he] using he''
      exact ⟨_, hmoved, rfl, hlength⟩
    mem := by
      intro i data hdata
      rw [hlocal] at hdata
      exact h.mem i data hdata
    block := by
      intro i file hfile
      rw [hdisk'] at hfile
      simp [Disk.removeDirty, h.dstBlocks i] at hfile
    file := by
      intro data hdata
      simp only [MntrsFs.cacheFile, Disk.read, hdisk', Disk.removeDirty, hwholeDst] at hdata
      exact h.cacheFile_eq hdata
    object := by rw [hlocal]; exact hobject
    buffer := by
      intro b hb
      rw [hlocal] at hb ⊢
      exact h.settled dst (.inr rfl) b hb }
  exact {
    found := hreverse
    reads := hholds.readsAs
    object := hholds.object
    gone := {
      inode := by
        intro i e' he' hpath'
        by_cases hi : i = ino
        · subst hi
          rw [hmoved] at he'
          cases he'
          exact h.ne hpath'.symm
        · have hne : (findInoByPath mid src).1 ≠ some i := by
            rw [hfound]
            intro heq
            exact hi (Option.some.inj heq).symm
          rw [hroot.others i hne] at he'
          exact hi (h.unique i e' he' hpath')
      reverse := hroot.reverse
      attrs := hroot.attrs
      cacheFile := by rw [hdisk']; exact hwholeSrc
      sidecar := by rw [hdisk']; simp [Disk.removeDirty] } }

/-- A rename of a known source that returns `Ok` was given up by the backend, which leaves the
source as it was, or moved the latest content of the source to the destination. The source's
object is then gone too, unless the backend refused the delete that follows a copy. -/
theorem rename_moves_content {cfg : Config} {fs : MntrsFs} {src dst : Path} {ino : Ino} {w : Bytes}
    {env : RenameEnv} (h : RenameReady cfg fs src dst ino w) (htruth : env.Truthful fs src)
    (hok : (doRename cfg fs src dst env).1 = .ok ()) :
    ((renameBackend cfg fs src dst env).1 = .ok false ∧
      ∃ backend, (doRename cfg fs src dst env).2 = { fs with backend := backend } ∧
        ∀ p, p ≠ dst → backend p = fs.backend p) ∨
    (ContentMoved cfg src dst ino w (doRename cfg fs src dst env).2 ∧
      ((doRename cfg fs src dst env).2.backend src = none ∨
        env.rename = some .unsupported ∧ deleteLands fs src env.delete = false)) := by
  have houtcome := renameBackend_outcome cfg fs src dst env
  by_cases hmoved : (renameBackend cfg fs src dst env).1 = .ok true
  · right
    obtain ⟨hobject, hsrc⟩ := h.objects htruth houtcome hmoved
    rw [backend_doRename]
    refine ⟨?_, hsrc⟩
    rw [doRename_of_moved hmoved]
    exact h.contentMoved houtcome.frame hobject
  · left
    obtain ⟨backend, hbackend, hkeep⟩ := houtcome.unmoved hmoved
    rw [doRename_of_unmoved hmoved]
    exact ⟨renameBackend_of_ok hok hmoved, backend, hbackend, hkeep⟩

/-- A file `a` of two bytes with a cache file, over a backend that may have an older object. -/
def cachedSource (object : Option Bytes) : MntrsFs :=
  { MntrsFs.mounted (Function.update (fun _ ↦ none) ['a'] object)
      (Disk.empty.create ((Config.plain .writes).writeBufferPath ['a']) [7, 8] 0) with
    inodes := AList.insert 2 ⟨['a'], .regularFile, 2, none⟩ ∅ }

private theorem eq_of_lookup_cachedSource {object : Option Bytes} {ino : Ino} {e : InodeEntry}
    (h : (cachedSource object).inodes.lookup ino = some e) :
    ino = 2 ∧ e = ⟨['a'], .regularFile, 2, none⟩ := by
  have hmem : (⟨ino, e⟩ : Sigma fun _ : Ino ↦ InodeEntry) ∈
      [⟨2, ⟨['a'], .regularFile, 2, none⟩⟩] := Table.lookup_eq_some_iff.mp h
  cases List.mem_singleton.mp hmem
  exact ⟨rfl, rfl⟩

theorem renameReady_cachedSource :
    RenameReady (.plain .writes) (cachedSource none) ['a'] ['b'] 2 [7, 8] where
  ne := by decide
  names := by decide
  entry := ⟨⟨['a'], .regularFile, 2, none⟩, by decide, rfl, rfl⟩
  unique := fun _ _ he _ ↦ (eq_of_lookup_cachedSource he).1
  content := by decide
  uploaded := .inr (by decide)
  settled := fun _ _ _ hb ↦ by cases hb
  mem := fun _ _ hdata ↦ by cases hdata
  dstFile := by decide
  dstBlocks := fun _ ↦ rfl
  dstQueue := rfl
  deleter := fun _ hd ↦ by cases hd

/-- Bytes that were never uploaded move through the last fallback. -/
theorem rename_moves_content_sample :
    ContentMoved (.plain .writes) ['a'] ['b'] 2 [7, 8]
      (doRename (.plain .writes) (cachedSource none) ['a'] ['b'] .readWrite).2 := by
  have htruth : RenameEnv.readWrite.Truthful (cachedSource none) ['a'] :=
    { rename := by decide, read := by decide }
  rcases rename_moves_content renameReady_cachedSource htruth (by decide) with
    ⟨hunmoved, -⟩ | ⟨hmoved, -⟩
  · exact absurd hunmoved (by decide)
  · exact hmoved

/-- A rename the backend refuses returns `Ok` and moves nothing; after a copy whose delete
fails the source is still there; and a server-side rename moves the older object, with no
upload of the bytes in the cache file. -/
theorem rename_ok_without_content :
    (let r := doRename (.plain .writes) (cachedSource (some [7, 8])) ['a'] ['b']
      { RenameEnv.ok with rename := some .permissionDenied }
    r.1 = .ok () ∧ r.2.backend ['b'] = none ∧ r.2.tasksOf ['b'] = 0 ∧
      r.2.pathToIno ['b'] = none) ∧
    (let r := doRename (.plain .writes) (cachedSource (some [7, 8])) ['a'] ['b']
      { RenameEnv.readWrite with delete := ⟨some .permissionDenied, []⟩ }
    r.1 = .ok () ∧ r.2.backend ['a'] = some [7, 8]) ∧
    (let r := doRename (.plain .writes) (cachedSource (some [1])) ['a'] ['b'] .ok
    r.1 = .ok () ∧ r.2.backend ['b'] = some [1] ∧ r.2.tasksOf ['b'] = 0) := by
  decide

end Mntrs

import Mntrs.Cache.Generations
import Mntrs.Fs.ReadBlocks

/-!
# A read against a write of the same file

A read that misses every cache fetches from the backend, puts the blocks into memory and hands
them to the disk-write pool (`src/src/lib.rs:5114-5452`), while a write fills its buffer and
invalidates the blocks (`5482-6315`). `RaceSys` cuts both calls at the places where another
thread can be seen to act: the fetch, every block put into memory, every submission and its
index entry, and on the other side the gap fetch, the buffer, the enqueue, the eviction, the
invalidation and the return. Pool threads execute block jobs at any time.
-/

namespace Mntrs

open Base

variable {cfg : Config} {ino : Ino} {fs : MntrsFs} {path : Path}

/-- A read that missed the caches, with the size it read from the inode. -/
structure ReadCall where
  path : Path
  ino : Ino
  fileSize : Nat
  fh : Fh
  offset : Nat
  size : Nat
  env : ReadEnv

/-- The bytes a read gets from the backend or a stale cache file, `5127-5313`. -/
def fetchRemote (cfg : Config) (fs : MntrsFs) (r : ReadCall) : Except IoError Bytes :=
  let fetch := fetchSize cfg (readChunk fs r.fh).1 r.fileSize r.offset r.size
  tryBackendOrStale cfg fs r.path r.offset r.size
    (match readRange fs r.env.remote r.path r.offset (r.offset + fetch) with
      | .ok b => .ok b
      | .error _ => .error ⟨.other, "read failed", none⟩)

/-- Where the read stands: before its fetch, with blocks left to put into memory and to submit,
or between a submission and its index entry. -/
inductive ReaderPhase where
  | idle
  | caching (puts submits : List (Nat × Bytes))
  | indexing (block : Nat × Bytes) (submits : List (Nat × Bytes))
deriving DecidableEq

/-- The read holds no fetched bytes that are still to be cached. -/
def ReaderPhase.quiet : ReaderPhase → Bool
  | .idle => true
  | .caching [] [] => true
  | .indexing _ [] => true
  | _ => false

/-- Where the write stands. -/
inductive WriterPhase where
  | idle
  | begun (c : WriteCall)
  | buffered (c : WriteCall)
  | enqueued (c : WriteCall)
  | evicted (c : WriteCall)
  | invalidated (c : WriteCall)
  | returned (r : Except IoError Nat)
deriving DecidableEq

/-- The write has invalidated the blocks, or returned with success. -/
def WriterPhase.pastInvalidation : WriterPhase → Bool
  | .invalidated _ => true
  | .returned (.ok _) => true
  | _ => false

/-- A mount with one read and one write under way. -/
structure RaceSys where
  fs : MntrsFs
  reader : ReaderPhase
  writer : WriterPhase

/-- The steps of the read, of the write and of the pool threads. -/
inductive RaceLabel where
  | fetch
  | put
  | submit
  | index
  | begin (fh : Fh) (offset : Nat) (data : Bytes) (env : WriteEnv)
  | buffer
  | enqueue
  | evict
  | invalidate
  | finish
  | execute (i now : Nat)

/-- The blocks a fetch hands to the caches. -/
def fetchedBlocks (r : ReadCall) (data : Bytes) : List (Nat × Bytes) :=
  cutBlocks cacheBlockSize r.offset data (decide (r.fileSize ≤ r.offset + data.length))

/-- One step of the read. -/
def readerStep (cfg : Config) (r : ReadCall) (l : RaceLabel) (fs : MntrsFs)
    (phase : ReaderPhase) : Option (MntrsFs × ReaderPhase) :=
  match l, phase with
  | .fetch, .idle =>
    match fetchRemote cfg fs r with
    | .error _ => some (fs, .caching [] [])
    | .ok b =>
      let blocks := fetchedBlocks r b
      some (fs, .caching blocks (if cfg.directIo then [] else blocks))
  | .put, .caching (b :: puts) submits => some (memPut fs r.ino b.1 b.2, .caching puts submits)
  | .submit, .caching [] (b :: submits) =>
    some (submitBlockCacheWrite fs r.path b.1 b.2, .indexing b submits)
  | .index, .indexing b submits =>
    some ({ fs with
      diskCacheIndex := fs.diskCacheIndex.insert (r.path, some b.1)
        (b.2.length + blockOverhead, r.env.now) }, .caching [] submits)
  | _, _ => none

/-- One step of the write, through a handle of the read's path. -/
def writerStep (cfg : Config) (r : ReadCall) (l : RaceLabel) (fs : MntrsFs)
    (phase : WriterPhase) : Option (MntrsFs × WriterPhase) :=
  match l, phase with
  | .begin fh offset data env, .idle =>
    if (writeTarget fs fh).map Prod.fst = some r.path then
      match writeBegin cfg fs r.ino fh offset data env with
      | .inl (res, fs) => some (fs, .returned res)
      | .inr c => some (fs, .begun c)
    else none
  | .buffer, .begun c =>
    match writeBuffer cfg fs c with
    | (.error e, fs) => some (fs, .returned (.error e))
    | (.ok (), fs) => some (fs, .buffered c)
  | .enqueue, .buffered c => some (writeEnqueue cfg fs c, .enqueued c)
  | .evict, .enqueued c => some (writeEvict cfg fs c, .evicted c)
  | .invalidate, .evicted c => some (invalidateBlocks cfg fs c.path c.ino, .invalidated c)
  | .finish, .invalidated c => some (markDirty cfg fs c, .returned (.ok c.data.length))
  | _, _ => none

/-- One step of the race. -/
def raceStep (cfg : Config) (r : ReadCall) (l : RaceLabel) (s : RaceSys) : Option RaceSys :=
  match l with
  | .fetch | .put | .submit | .index =>
    (readerStep cfg r l s.fs s.reader).map (fun p ↦ ⟨p.1, p.2, s.writer⟩)
  | .execute i now => (poolExecuteBlock cfg s.fs i now).map (fun fs ↦ ⟨fs, s.reader, s.writer⟩)
  | _ => (writerStep cfg r l s.fs s.writer).map (fun p ↦ ⟨p.1, s.reader, p.2⟩)

/-! ### The steps in one go are the handlers -/

/-- The steps of a write that nothing comes between, as far as it gets, are the handler. -/
theorem exec_race_write {r : ReadCall} {fh : Fh}
    (htarget : (writeTarget fs fh).map Prod.fst = some r.path) (reader : ReaderPhase) (offset : Nat)
    (data : Bytes) (env : WriteEnv) :
    ∃ n, exec (raceStep cfg r) ([.begin fh offset data env, .buffer, .enqueue, .evict, .invalidate,
        .finish].take n) ⟨fs, reader, .idle⟩ =
      some ⟨(write cfg fs r.ino fh offset data env).2, reader,
        .returned (write cfg fs r.ino fh offset data env).1⟩ := by
  cases hbegin : writeBegin cfg fs r.ino fh offset data env with
  | inl done =>
    refine ⟨1, ?_⟩
    simp [exec, raceStep, writerStep, htarget, write, hbegin]
  | inr c =>
    have hbegun : raceStep cfg r (.begin fh offset data env) ⟨fs, reader, .idle⟩ =
        some ⟨fs, reader, .begun c⟩ := by
      simp [raceStep, writerStep, htarget, hbegin]
    cases hbuffer : writeBuffer cfg fs c with
    | mk res fs' =>
      cases res with
      | error e =>
        refine ⟨2, ?_⟩
        rw [List.take_succ_cons, exec, hbegun]
        simp [exec, raceStep, writerStep, write, hbegin, writeRest, hbuffer]
      | ok u =>
        have hbuffered : raceStep cfg r .buffer ⟨fs, reader, .begun c⟩ =
            some ⟨fs', reader, .buffered c⟩ := by
          simp [raceStep, writerStep, hbuffer]
        have hwrite : write cfg fs r.ino fh offset data env =
            (.ok c.data.length, writeFinish cfg (writeEnqueue cfg fs' c) c) := by
          simp [write, hbegin, writeRest, hbuffer]
        refine ⟨6, ?_⟩
        rw [hwrite, List.take_succ_cons, exec, hbegun, Option.bind_some, List.take_succ_cons, exec,
          hbuffered]
        rfl

theorem exec_puts (cfg : Config) (r : ReadCall) (puts submits : List (Nat × Bytes))
    (fs : MntrsFs) (writer : WriterPhase) :
    exec (raceStep cfg r) (List.replicate puts.length .put) ⟨fs, .caching puts submits, writer⟩ =
      some ⟨puts.foldl (fun fs b ↦ memPut fs r.ino b.1 b.2) fs, .caching [] submits, writer⟩ := by
  induction puts generalizing fs with
  | nil => rfl
  | cons b puts ih =>
    exact ih (memPut fs r.ino b.1 b.2)

theorem exec_submits (cfg : Config) (r : ReadCall) (submits : List (Nat × Bytes))
    (fs : MntrsFs) (writer : WriterPhase) :
    exec (raceStep cfg r) (submits.flatMap (fun _ ↦ [.submit, .index]))
        ⟨fs, .caching [] submits, writer⟩ =
      some ⟨submits.foldl (fun fs b ↦ submitBlock fs r.path b.1 b.2 r.env.now) fs,
        .caching [] [], writer⟩ := by
  induction submits generalizing fs with
  | nil => rfl
  | cons b submits ih =>
    exact ih (submitBlock fs r.path b.1 b.2 r.env.now)

theorem cacheFetched_eq (cfg : Config) (fs : MntrsFs) (r : ReadCall) (b : Bytes) :
    cacheFetched cfg fs r.path r.ino r.fileSize r.offset b r.env.now =
      (if cfg.directIo then [] else fetchedBlocks r b).foldl
        (fun fs b ↦ submitBlock fs r.path b.1 b.2 r.env.now)
        ((fetchedBlocks r b).foldl (fun fs b ↦ memPut fs r.ino b.1 b.2) fs) := by
  unfold cacheFetched
  split
  · exact List.foldl_nil.symm
  · exact Eq.refl _

/-- The steps of a read that nothing comes between fill the caches as the handler does. -/
theorem exec_race_read {r : ReadCall} {b : Bytes} (hfetch : fetchRemote cfg fs r = .ok b)
    (writer : WriterPhase) :
    exec (raceStep cfg r) (.fetch :: (List.replicate (fetchedBlocks r b).length .put ++
        (if cfg.directIo then [] else fetchedBlocks r b).flatMap (fun _ ↦ [.submit, .index])))
        ⟨fs, .idle, writer⟩ =
      some ⟨cacheFetched cfg fs r.path r.ino r.fileSize r.offset b r.env.now, .caching [] [],
        writer⟩ := by
  have hstep : raceStep cfg r .fetch ⟨fs, .idle, writer⟩ =
      some ⟨fs, .caching (fetchedBlocks r b) (if cfg.directIo then [] else fetchedBlocks r b),
        writer⟩ := by
    simp [raceStep, readerStep, hfetch]
  rw [exec, hstep, Option.bind_some, exec_append, exec_puts, Option.bind_some, exec_submits,
    cacheFetched_eq]

/-- What the handler does around them: it answers with the bytes asked for and sets the next
chunk. -/
theorem readRemote_eq (cfg : Config) (fs : MntrsFs) (r : ReadCall) :
    readRemote cfg fs r.path r.ino r.fileSize r.fh r.offset r.size r.env =
      match fetchRemote cfg fs r with
      | .error e => (.error e, fs)
      | .ok b =>
        (.ok (b.take r.size),
          nextChunk cfg (cacheFetched cfg fs r.path r.ino r.fileSize r.offset b r.env.now) r.fh
            r.offset (min b.length r.size)
            (fetchSize cfg (readChunk fs r.fh).1 r.fileSize r.offset r.size ≤ b.length)) :=
  rfl

/-! ### No old block after the write -/

/-- No cache serves a block of the path, and no queued job will bring one back. -/
structure NoBlocks (cfg : Config) (path : Path) (ino : Ino) (fs : MntrsFs) : Prop where
  mem : ∀ k, fs.memCache ino k = none
  block : ∀ k file, fs.disk.block (cfg.writeBufferPath path) k = some file → file.path ≠ path
  pool : ∀ job ∈ fs.blockCachePool, job.remotePath = path → Overtaken fs job

/-- Every block file of the path is indexed. -/
def AllIndexed (cfg : Config) (path : Path) (fs : MntrsFs) : Prop :=
  ∀ k file, fs.disk.block (cfg.writeBufferPath path) k = some file → file.path = path →
    (path, some k) ∈ fs.diskCacheIndex

/-- The read fetches before the invalidation, and the invalidation does not come between the
fetch and the last submission of the read, leaves the captured generations behind and finds
every block file of the path indexed. The write is not a direct one. A later fetch that fails is
excluded as well. -/
def Separated (cfg : Config) (r : ReadCall) (s : RaceSys) : RaceLabel → Prop
  | .fetch => s.writer.pastInvalidation = false
  | .begin _ _ _ _ => cfg.directIo = false
  | .invalidate => s.reader.quiet = true ∧ BumpsPast s.fs r.path ∧ AllIndexed cfg r.path s.fs
  | _ => True

theorem NoBlocks.readBlock_eq_none (h : NoBlocks cfg path ino fs) (k now : Nat) :
    (readBlock cfg fs path ino k now).1 = none :=
  (readBlock_eq_none_iff (h.mem k) now).mpr
    (.inr (fun file hfile hpath ↦ absurd hpath (h.block k file hfile)))

/-- An invalidation that finds every block file indexed and leaves the captured generations
behind leaves no block of the path. -/
theorem noBlocks_invalidateBlocks (ino : Ino) (hbump : BumpsPast fs path)
    (hindexed : AllIndexed cfg path fs)
    (hcaptured : ∀ job ∈ fs.blockCachePool, job.remotePath = path → Captured fs job) :
    NoBlocks cfg path ino (invalidateBlocks cfg fs path ino) where
  mem := memCache_invalidateBlocks cfg fs path ino
  block := by
    intro k file hfile hpath
    rw [block_invalidateBlocks] at hfile
    split at hfile
    · cases hfile
    · next hnot => exact hnot (hindexed k file hfile hpath)
  pool := by
    intro job hjob hpath
    rw [blockCachePool_invalidateBlocks] at hjob
    rw [Overtaken, pathCacheGen_invalidateBlocks]
    exact hbump.overtaken hjob hpath (hcaptured job hjob hpath)

/-- What does not touch the block caches, the queue and the generations keeps the path without
blocks. -/
theorem NoBlocks.congr {fs' : MntrsFs} (h : NoBlocks cfg path ino fs)
    (hmem : fs'.memCache = fs.memCache) (hblock : fs'.disk.block = fs.disk.block)
    (hpool : fs'.blockCachePool = fs.blockCachePool) (hgens : fs'.pathCacheGen = fs.pathCacheGen)
    : NoBlocks cfg path ino fs' where
  mem := by
    rw [hmem]
    exact h.mem
  block := by
    rw [hblock]
    exact h.block
  pool := by
    rw [hpool]
    simp only [Overtaken, pathCacheGen, hgens]
    exact h.pool

/-- Pool threads bring no block of the path back. -/
theorem NoBlocks.poolExecuteBlock {fs' : MntrsFs} (h : NoBlocks cfg path ino fs) {i now : Nat}
    (hexec : poolExecuteBlock cfg fs i now = some fs') : NoBlocks cfg path ino fs' := by
  obtain ⟨job, hjob, disk, rfl, hdisk⟩ := poolExecuteBlock_cases hexec
  refine ⟨h.mem, ?_, fun job hjob ↦ h.pool job (List.eraseIdx_subset hjob)⟩
  intro k file hfile
  rcases hdisk with rfl | ⟨hcurrent, -, rfl⟩
  · exact h.block k file hfile
  · -- a job of the path was overtaken, so the written block is of another path
    have hother : job.remotePath ≠ path := fun hpath ↦ (h.pool job hjob hpath).ne hcurrent
    rcases Disk.block_writeBlock hfile with ⟨-, -, rfl⟩ | hold
    · exact hother
    · exact h.block k file hold

/-- The call of a write that has not returned. -/
def WriterPhase.call : WriterPhase → Option WriteCall
  | .begun c | .buffered c | .enqueued c | .evicted c | .invalidated c => some c
  | .idle | .returned _ => none

/-- Before the invalidation the queued jobs hold generations of the past or the present, and
after it no block of the file is left. -/
structure RaceInv (cfg : Config) (r : ReadCall) (s : RaceSys) : Prop where
  call : ∀ c ∈ s.writer.call, c.path = r.path ∧ c.ino = r.ino
  before : s.writer.pastInvalidation = false →
    ∀ job ∈ s.fs.blockCachePool, job.remotePath = r.path → Captured s.fs job
  after : s.writer.pastInvalidation = true →
    s.reader.quiet = true ∧ NoBlocks cfg r.path r.ino s.fs

variable {l : RaceLabel}

namespace RaceInv

variable {r : ReadCall} {s t : RaceSys}

variable (h : RaceInv cfg r s)
include h

theorem before_of_not_quiet (hbusy : s.reader.quiet = false) :
    s.writer.pastInvalidation = false := by
  by_contra hpast
  rw [(h.after (by simpa using hpast)).1] at hbusy
  cases hbusy

theorem reader {phase : ReaderPhase} (hbefore : s.writer.pastInvalidation = false)
    (hjobs : ∀ job ∈ fs.blockCachePool, job.remotePath = r.path → Captured fs job) :
    RaceInv cfg r ⟨fs, phase, s.writer⟩ where
  call := h.call
  before _ := hjobs
  after hpast := by
    simp only [hbefore] at hpast
    cases hpast

/-- Every step of the read keeps the invariant. -/
theorem readerStep {p : MntrsFs × ReaderPhase} (hguard : Separated cfg r s l)
    (hstep : readerStep cfg r l s.fs s.reader = some p) : RaceInv cfg r ⟨p.1, p.2, s.writer⟩ := by
  unfold Mntrs.readerStep at hstep
  split at hstep
  · have hbefore : s.writer.pastInvalidation = false := hguard
    split at hstep <;>
    · cases hstep
      exact h.reader hbefore (h.before hbefore)
  · next b puts submits hphase =>
    have hbefore := h.before_of_not_quiet (by rw [hphase]; rfl)
    cases hstep
    exact h.reader hbefore (h.before hbefore)
  · next b submits hphase =>
    have hbefore := h.before_of_not_quiet (by rw [hphase]; rfl)
    cases hstep
    refine h.reader hbefore ?_
    intro job hjob hpath
    rcases List.mem_append.mp hjob with hold | hnew
    · exact h.before hbefore job hold hpath
    · rw [List.mem_singleton.mp hnew]
      exact Nat.le_refl _
  · next b submits hphase =>
    cases hstep
    refine ⟨h.call, h.before, fun hpast ↦ ?_⟩
    obtain ⟨hquiet, hno⟩ := h.after hpast
    rw [hphase] at hquiet
    cases submits with
    | nil => exact ⟨rfl, hno.mem, hno.block, hno.pool⟩
    | cons => cases hquiet
  · cases hstep

/-- A step of the write before the invalidation, which touches neither the queue nor the
generations. -/
theorem writer {phase : WriterPhase} (hbefore : s.writer.pastInvalidation = false)
    (hphase : phase.pastInvalidation = false)
    (hcall : ∀ c ∈ phase.call, c.path = r.path ∧ c.ino = r.ino)
    (hpool : fs.blockCachePool = s.fs.blockCachePool)
    (hgens : fs.pathCacheGen = s.fs.pathCacheGen) : RaceInv cfg r ⟨fs, s.reader, phase⟩ where
  call := hcall
  before _ := by
    simp only [hpool, Captured, pathCacheGen, hgens]
    exact h.before hbefore
  after hpast := by
    simp only [hphase] at hpast
    cases hpast

/-- Every step of the write keeps the invariant. -/
theorem writerStep {p : MntrsFs × WriterPhase} (hguard : Separated cfg r s l)
    (hstep : writerStep cfg r l s.fs s.writer = some p) : RaceInv cfg r ⟨p.1, s.reader, p.2⟩ := by
  unfold Mntrs.writerStep at hstep
  split at hstep
  · next fh offset data env hphase =>
    have hdirect : cfg.directIo = false := hguard
    have hbefore : s.writer.pastInvalidation = false := by rw [hphase]; rfl
    split at hstep
    · next htarget =>
      rcases writeBegin_cases hdirect s.fs r.ino fh offset data env with
        ⟨e, hbegin⟩ | ⟨path, fd, gap, hpath, -, hbegin⟩
      · rw [hbegin] at hstep
        cases hstep
        exact h.writer hbefore rfl (by simp [WriterPhase.call]) rfl rfl
      · rw [hbegin] at hstep
        cases hstep
        rw [hpath] at htarget
        cases htarget
        exact h.writer hbefore rfl (by rintro _ ⟨⟩; exact ⟨rfl, rfl⟩) rfl rfl
    · cases hstep
  · next c hphase =>
    have hc := h.call c (by rw [hphase]; rfl)
    obtain ⟨disk, buffers, registered, hframe⟩ := writeBuffer_frame cfg s.fs c
    split at hstep
    · next heq =>
      rw [heq] at hframe
      subst hframe
      cases hstep
      exact h.writer (by rw [hphase]; rfl) rfl (by simp [WriterPhase.call]) rfl rfl
    · next heq =>
      rw [heq] at hframe
      subst hframe
      cases hstep
      exact h.writer (by rw [hphase]; rfl) rfl (by rintro _ ⟨⟩; exact hc) rfl rfl
  · next c hphase =>
    have hc := h.call c (by rw [hphase]; rfl)
    cases hstep
    have hframe := writeEnqueue_frame cfg s.fs c
    rw [hframe]
    exact h.writer (by rw [hphase]; rfl) rfl (by rintro _ ⟨⟩; exact hc) rfl rfl
  · next c hphase =>
    have hc := h.call c (by rw [hphase]; rfl)
    cases hstep
    obtain ⟨disk, index, pool, hframe⟩ := writeEvict_frame cfg s.fs c
    rw [hframe]
    exact h.writer (by rw [hphase]; rfl) rfl (by rintro _ ⟨⟩; exact hc) rfl rfl
  · next c hphase =>
    have hc := h.call c (by rw [hphase]; rfl)
    obtain ⟨hquiet, hbump, hindexed⟩ : s.reader.quiet = true ∧ BumpsPast s.fs r.path ∧
      AllIndexed cfg r.path s.fs := hguard
    cases hstep
    refine ⟨by rintro _ ⟨⟩; exact hc, (fun hfalse ↦ by cases hfalse), fun _ ↦ ⟨hquiet, ?_⟩⟩
    rw [hc.1, hc.2]
    exact noBlocks_invalidateBlocks r.ino hbump hindexed (h.before (by rw [hphase]; rfl))
  · next c hphase =>
    obtain ⟨hquiet, hclean⟩ := h.after (by rw [hphase]; rfl)
    cases hstep
    refine ⟨by simp [WriterPhase.call], (fun hfalse ↦ by cases hfalse), fun _ ↦ ⟨hquiet, ?_⟩⟩
    obtain ⟨handles, buffers, registered, next, hframe⟩ := markDirty_frame cfg s.fs c
    rw [hframe]
    exact hclean.congr rfl rfl rfl rfl
  · cases hstep

/-- Every step of the race that keeps the read and the invalidation apart keeps the
invariant. -/
theorem step (hguard : Separated cfg r s l) (hstep : raceStep cfg r l s = some t) :
    RaceInv cfg r t := by
  unfold raceStep at hstep
  split at hstep
  iterate 4
    · obtain ⟨p, hp, rfl⟩ := Option.map_eq_some_iff.mp hstep
      exact h.readerStep hguard hp
  · obtain ⟨fs, hexec, rfl⟩ := Option.map_eq_some_iff.mp hstep
    refine ⟨h.call, ?_, fun hpast ↦ ⟨(h.after hpast).1, (h.after hpast).2.poolExecuteBlock hexec⟩⟩
    intro hbefore job hjob hpath
    obtain ⟨-, -, disk, rfl, -⟩ := poolExecuteBlock_cases hexec
    exact h.before hbefore job (List.eraseIdx_subset hjob) hpath
  · obtain ⟨p, hp, rfl⟩ := Option.map_eq_some_iff.mp hstep
    exact h.writerStep hguard hp

end RaceInv

/-- In every interleaving of a read and a write of one file in which the read fetches before the
invalidation, the invalidation does not come between the fetch and the last index entry of the
read, and it finds all block files indexed and the captured generations behind, no block of the
file is served once the write has returned with success. -/
theorem no_block_after_write_of_run {cfg : Config} {r : ReadCall} {fs : MntrsFs} {s : RaceSys}
    (hcaptured : ∀ job ∈ fs.blockCachePool, job.remotePath = r.path → Captured fs job)
    (hrun : GuardedRun (raceStep cfg r) (Separated cfg r) ⟨fs, .idle, .idle⟩ s) {n : Nat}
    (hreturned : s.writer = .returned (.ok n)) (k now : Nat) :
    (readBlock cfg s.fs r.path r.ino k now).1 = none := by
  have hinit : RaceInv cfg r ⟨fs, .idle, .idle⟩ :=
    ⟨by simp [WriterPhase.call], fun _ ↦ hcaptured, (fun hpast ↦ by cases hpast)⟩
  have hinv := hrun.invariant (RaceInv cfg r)
    (fun _ _ _ h hguard hstep ↦ h.step hguard hstep) hinit
  exact (hinv.after (by rw [hreturned]; rfl)).2.readBlock_eq_none k now

/-- A file of two bytes, open for writing under handle 1 and for reading under handle 2. -/
def openTwice : MntrsFs :=
  { MntrsFs.mounted (Function.update (fun _ ↦ none) ['a'] (some [7, 8]))
      (Disk.empty.create ((Config.plain .full).writeBufferPath ['a']) [7, 8] 0) with
    inodes := AList.insert 2 ⟨['a'], .regularFile, 2, none⟩ ∅
    handles := AList.insert 1 (.write ⟨['a'], some 0, none, false, none, none, none⟩)
      (AList.insert 2 (.read ⟨['a'], 0, 0, false, none⟩) ∅) }

/-- A read of the whole file through handle 2. -/
def wholeRead : ReadCall := ⟨['a'], 2, 2, 2, 0, 2, .ok⟩

/-- The read caches its block, the write replaces the file, and then a pool thread finds the job
of the read overtaken. -/
theorem no_block_after_write_of_run_sample :
    ∃ s, GuardedRun (raceStep (.plain .full) wholeRead) (Separated (.plain .full) wholeRead)
        ⟨openTwice, .idle, .idle⟩ s ∧ s.writer = .returned (.ok 2) ∧
      ∀ k now, (readBlock (.plain .full) s.fs ['a'] 2 k now).1 = none := by
  let labels : List RaceLabel := [.fetch, .put, .submit, .index, .begin 1 0 [9, 9] .ok, .buffer,
    .enqueue, .evict, .invalidate, .finish, .execute 0 0]
  obtain ⟨s, hexec, hreturned⟩ := exists_exec (raceStep (.plain .full) wholeRead)
    (fun s ↦ s.writer = .returned (.ok 2)) labels ⟨openTwice, .idle, .idle⟩ (by decide)
  have hrun : GuardedRun (raceStep (.plain .full) wholeRead) (Separated (.plain .full) wholeRead)
      ⟨openTwice, .idle, .idle⟩ s := by
    have hfetch : raceStep (.plain .full) wholeRead .fetch ⟨openTwice, .idle, .idle⟩ =
        some ⟨openTwice, .caching [(0, [7, 8])] [(0, [7, 8])], .idle⟩ := by
      rfl
    apply guardedRun_of_exec hexec
    refine ⟨rfl, ?_⟩
    rw [hfetch]
    rintro _ ⟨⟩
    refine ⟨trivial, ?_⟩
    rintro _ ⟨⟩
    refine ⟨trivial, ?_⟩
    rintro _ ⟨⟩
    refine ⟨trivial, ?_⟩
    rintro _ ⟨⟩
    refine ⟨rfl, ?_⟩
    rintro _ ⟨⟩
    refine ⟨trivial, ?_⟩
    rintro _ ⟨⟩
    refine ⟨trivial, ?_⟩
    rintro _ ⟨⟩
    refine ⟨trivial, ?_⟩
    rintro _ ⟨⟩
    refine ⟨⟨rfl, by decide, ?_⟩, ?_⟩
    · rintro k file ⟨⟩
    rintro _ ⟨⟩
    refine ⟨trivial, ?_⟩
    rintro _ ⟨⟩
    refine ⟨trivial, ?_⟩
    rintro _ ⟨⟩
    trivial
  exact ⟨s, hrun, hreturned, no_block_after_write_of_run (by rintro _ ⟨⟩) hrun hreturned⟩

/-- The read has fetched, the write replaces the file and returns, and then the read puts its
block into memory: the next read through handle 2 returns the old bytes. -/
theorem old_block_after_write :
    ∃ s, exec (raceStep (.plain .full) wholeRead)
        [.fetch, .begin 1 0 [9, 9] .ok, .buffer, .enqueue, .evict, .invalidate, .finish, .put]
        ⟨openTwice, .idle, .idle⟩ = some s ∧
      s.writer = .returned (.ok 2) ∧ s.fs.cacheFile (.plain .full) ['a'] = some [9, 9] ∧
      (read (.plain .full) s.fs 2 2 0 2 .ok).1 = .ok [7, 8] :=
  exists_exec (raceStep (.plain .full) wholeRead)
    (fun s ↦ s.writer = .returned (.ok 2) ∧ s.fs.cacheFile (.plain .full) ['a'] = some [9, 9] ∧
      (read (.plain .full) s.fs 2 2 0 2 .ok).1 = .ok [7, 8]) _ _ (by decide)

end Mntrs

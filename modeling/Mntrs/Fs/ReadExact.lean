import Mntrs.Fs.Read

/-!
# What a read returns

A read answers from one place: an unflushed buffer, a cached block, a prefetched part, the
whole-file cache, or a capped fetch from the backend. When each of them holds a piece of the
file's content, the answer is the content from the offset on, up to where that place stops.
-/

namespace Mntrs

open Base

variable {bytes data w : Bytes} {cfg : Config} {fh : Fh} {ino : Ino} {fs : MntrsFs}
  {fileSize offset size : Nat} {path : Path} {env : ReadEnv}

/-- Everything a read looks at is a piece of the content `w`, and the backend or a local copy
holds all of it. -/
structure Consistent (cfg : Config) (fs : MntrsFs) (env : ReadEnv) (path : Path) (ino : Ino)
    (fh : Fh) (offset : Nat) (w : Bytes) : Prop where
  entry : ∃ e, fs.inodes.lookup ino = some e ∧ e.path = path ∧ e.size = w.length
  handle : ∀ b, handleBuffer fs fh = some b → IsPiece w 0 (fs.buffers b).data
  buffer : ∀ b, fs.offModeBuffers path = some b → (fs.buffers b).dirty = true →
    IsPiece w 0 (fs.buffers b).data
  fd : ∀ h f, fs.handles.lookup fh = some (.write h) → h.writeBufferFd = some f →
    IsPiece w 0 (fs.disk.data f)
  mem : ∀ i data, fs.memCache ino i = some data → IsPiece w (i * cacheBlockSize) data
  block : ∀ i file, fs.disk.block (cfg.writeBufferPath path) i = some file → file.path = path →
    IsPiece w (i * cacheBlockSize) file.data
  part : ∀ start data, poppedPart fs fh env = some (start, data) →
    start ≤ offset ∧ IsPiece w start data
  file : ∀ data, MntrsFs.cacheFile cfg fs path = some data → IsPiece w 0 data
  object : fs.backend path = some w ∨
    (answeringBuffer cfg fs path w.length fh offset).isSome ∨
    ∀ size, (readFileCache cfg fs path ino w.length offset size env.now).1.isSome

private theorem descriptorData_some (h : (match fs.handles.lookup fh with
      | some (.write w) => w.writeBufferFd.map fs.disk.data
      | _ => none) = some data) :
    ∃ w f, fs.handles.lookup fh = some (.write w) ∧ w.writeBufferFd = some f ∧
      fs.disk.data f = data := by
  split at h
  · next w hlookup =>
    obtain ⟨f, hf, rfl⟩ := Option.map_eq_some_iff.mp h
    exact ⟨w, f, hlookup, hf, rfl⟩
  · cases h

/-- A buffer that answers a read is the handle's, a dirty one registered for the path, or the file
behind the handle's descriptor. -/
theorem answeringBuffer_some (h : answeringBuffer cfg fs path fileSize fh offset = some data) :
    (∃ b, handleBuffer fs fh = some b ∧ (fs.buffers b).data = data) ∨
      (∃ b, fs.offModeBuffers path = some b ∧ (fs.buffers b).dirty = true ∧
        (fs.buffers b).data = data) ∨
      ∃ w f, fs.handles.lookup fh = some (.write w) ∧ w.writeBufferFd = some f ∧
        fs.disk.data f = data := by
  unfold answeringBuffer at h
  simp only at h
  split at h
  · cases h
  · split at h
    · rcases Option.or_eq_some_iff.mp h with h | ⟨-, h⟩
      · obtain ⟨h, -⟩ := Option.filter_eq_some_iff.mp h
        obtain ⟨b, hb, rfl⟩ := Option.map_eq_some_iff.mp h
        exact .inl ⟨b, hb, rfl⟩
      · rcases Option.or_eq_some_iff.mp h with h | ⟨-, h⟩
        · obtain ⟨h, -⟩ := Option.filter_eq_some_iff.mp h
          obtain ⟨buf, hbuf, hdata⟩ := Option.bind_eq_some_iff.mp h
          obtain ⟨b, hb, rfl⟩ := Option.map_eq_some_iff.mp hbuf
          split at hdata
          · next hdirty =>
            cases hdata
            exact .inr (.inl ⟨b, hb, hdirty.1, rfl⟩)
          · cases hdata
        · exact .inr (.inr (descriptorData_some (Option.filter_eq_some_iff.mp h).1))
    · exact .inr (.inr (descriptorData_some (Option.filter_eq_some_iff.mp h).1))

section

variable (h : Consistent cfg fs env path ino fh offset w)
include h

theorem Consistent.isPiece_answeringBuffer
    (hbuffer : answeringBuffer cfg fs path fileSize fh offset = some data) : IsPiece w 0 data := by
  rcases answeringBuffer_some hbuffer with ⟨b, hb, rfl⟩ | ⟨b, hb, hdirty, rfl⟩ |
    ⟨wh, f, hlookup, hf, rfl⟩
  · exact h.handle b hb
  · exact h.buffer b hb hdirty
  · exact h.fd wh f hlookup hf

theorem Consistent.isPiece_readBlock {block now : Nat}
    (hread : (readBlock cfg fs path ino block now).1 = some data) :
    IsPiece w (block * cacheBlockSize) data := by
  rcases readBlock_some hread with hmem | ⟨file, hfile, hpath, rfl⟩
  · exact h.mem block data hmem
  · exact h.block block file hfile hpath

theorem Consistent.readFileCache_eq {now : Nat}
    (hread : (readFileCache cfg fs path ino w.length offset size now).1 = some bytes) :
    bytes = slice w offset (offset + size) := by
  unfold readFileCache at hread
  simp only at hread
  split at hread
  · cases hread
  · split at hread
    · cases hread
    · next f hwhole =>
      have hpiece : IsPiece w 0 (fs.disk.data f) :=
        h.file _ (by simp [MntrsFs.cacheFile, Disk.read, hwhole])
      split at hread
      · cases hread
      · split at hread <;> cases hread
        rename_i hlength
        rw [hpiece.slice_zero]
        apply slice_eq_slice_iff.mpr
        omega

end

/-- The position of the file up to which the place that answers a read can serve it. -/
def servedUpTo (cfg : Config) (fs : MntrsFs) (path : Path) (ino : Ino) (fileSize : Nat) (fh : Fh)
    (offset size : Nat) (env : ReadEnv) : Nat :=
  let block := offset / cacheBlockSize
  match answeringBuffer cfg fs path fileSize fh offset with
  | some data => data.length
  | none =>
    match (readBlock cfg fs path ino block env.now).1 with
    | some data => block * cacheBlockSize + data.length
    | none =>
      match poppedPart fs fh env with
      | some (start, data) => start + data.length
      | none =>
        match (readFileCache cfg fs path ino fileSize offset size env.now).1, env.remote with
        | none, none => offset + fetchSize cfg (readChunk fs fh).1 fileSize offset size
        | _, _ => offset + size

/-- A fetch that succeeds returns the content up to the size of the fetch; one that fails is
answered in full from a whole-file cache or not at all. -/
theorem readRemote_ok (hobject : fs.backend path = some w)
    (hfile : ∀ data, MntrsFs.cacheFile cfg fs path = some data → IsPiece w 0 data)
    (hok : (readRemote cfg fs path ino fileSize fh offset size env).1 = .ok bytes) :
    bytes = slice w offset (min (offset + size)
      (if env.remote = none then
        offset + fetchSize cfg (readChunk fs fh).1 fileSize offset size
      else offset + size)) := by
  cases hremote : env.remote with
  | none =>
    simp only [readRemote, readRange, hremote, hobject, tryBackendOrStale, take_slice,
      Except.ok.injEq] at hok
    rw [← hok, if_pos rfl]
    congr 1
    omega
  | some e =>
    simp only [readRemote, readRange, hremote, tryBackendOrStale] at hok
    rw [if_neg (by simp)]
    split at hok
    · cases hok
    · next hstale =>
      split at hstale
      · split at hstale
        · next data hdata =>
          split at hstale <;> cases hstale
          rename_i hlength
          simp only [take_slice, Except.ok.injEq, min_self] at hok
          rw [← hok, (hfile data hdata).slice_zero]
          apply slice_eq_slice_iff.mpr
          omega
        · cases hstale
      · cases hstale

/-- A read that returns `Ok` returns the content from the offset on, as far as the place that
answers it reaches. -/
theorem read_eq (h : Consistent cfg fs env path ino fh offset w) (hoffset : offset < w.length)
    (hok : (read cfg fs ino fh offset size env).1 = .ok bytes) :
    bytes = slice w offset
      (min (offset + size) (servedUpTo cfg fs path ino w.length fh offset size env)) := by
  obtain ⟨e, he, rfl, hlength⟩ := h.entry
  unfold read at hok
  unfold servedUpTo
  simp only [he, hlength, Nat.not_le.mpr hoffset, if_false] at hok ⊢
  cases hbuffer : answeringBuffer cfg fs e.path w.length fh offset with
  | some data =>
    simp only [hbuffer, Except.ok.injEq] at hok ⊢
    rw [← hok, (h.isPiece_answeringBuffer hbuffer).slice_zero]
  | none =>
    simp only [hbuffer] at hok ⊢
    obtain ⟨index, mem, blocks, hframe⟩ :=
      readBlock_frame cfg fs e.path ino (offset / cacheBlockSize) env.now
    cases hblock : readBlock cfg fs e.path ino (offset / cacheBlockSize) env.now with
    | mk block fs₁ =>
      rw [hblock] at hframe
      cases block with
      | some data =>
        simp only [hblock, Except.ok.injEq] at hok ⊢
        have hpiece := h.isPiece_readBlock (congrArg Prod.fst hblock)
        rw [← hok, hpiece.slice_from (Nat.div_mul_le_self offset cacheBlockSize)]
      | none =>
        simp only [hblock] at hok ⊢
        simp only at hframe
        -- the rest of the handler looks at fields the block caches do not touch
        have hpart : poppedPart fs₁ fh env = poppedPart fs fh env := by rw [hframe]; rfl
        have hcache : (readFileCache cfg fs₁ e.path ino w.length offset size env.now).1 =
            (readFileCache cfg fs e.path ino w.length offset size env.now).1 := by
          rw [hframe]
          exact readFileCache_congr ..
        rw [hpart] at hok
        cases hpopped : poppedPart fs fh env with
        | some part =>
          obtain ⟨start, data⟩ := part
          simp only [hpopped, Except.ok.injEq] at hok ⊢
          obtain ⟨hstart, hpiece⟩ := h.part start data hpopped
          rw [← hok, hpiece.slice_from hstart]
        | none =>
          simp only [hpopped] at hok ⊢
          rw [← hcache]
          obtain ⟨index', mem', whole, hframe', hwhole⟩ :=
            readFileCache_frame cfg fs₁ e.path ino w.length offset size env.now
          cases hread : readFileCache cfg fs₁ e.path ino w.length offset size env.now with
          | mk answer fs₂ =>
            rw [hread] at hframe' hcache
            cases answer with
            | some answer =>
              simp only [hread, Except.ok.injEq] at hok ⊢
              rw [← hok, h.readFileCache_eq hcache.symm, min_self]
            | none =>
              simp only [hread] at hok ⊢
              simp only at hframe'
              have hobject : fs₂.backend e.path = some w := by
                rw [hframe', hframe]
                rcases h.object with hobject | hanswers | hanswers
                · exact hobject
                · simp [hbuffer] at hanswers
                · have hanswer := hanswers size
                  rw [← hcache] at hanswer
                  cases hanswer
              have hfile : ∀ data, MntrsFs.cacheFile cfg fs₂ e.path = some data →
                  IsPiece w 0 data := by
                intro data hdata
                rw [hframe'] at hdata
                rcases hwhole with hwhole | hwhole
                · rw [hwhole, hframe] at hdata
                  exact h.file data hdata
                · simp [MntrsFs.cacheFile, Disk.read, hwhole] at hdata
              have hchunk : readChunk fs₂ fh = readChunk fs fh := by
                rw [hframe', hframe]
                rfl
              have hremote := readRemote_ok hobject hfile hok
              rw [hchunk] at hremote
              rw [hremote]
              cases env.remote <;> simp

/-- A read of a file whose object the backend returns is answered. -/
theorem read_answers {cfg : Config} {fs : MntrsFs} {ino : Ino} {e : InodeEntry} {w : Bytes}
    {env : ReadEnv} (fh : Fh) (offset size : Nat) (he : fs.inodes.lookup ino = some e)
    (hobject : fs.backend e.path = some w) (hremote : env.remote = none) :
    ∃ bytes, (read cfg fs ino fh offset size env).1 = .ok bytes := by
  have hfetched : ∀ fs' : MntrsFs, fs'.backend = fs.backend →
      ∃ bytes, (readRemote cfg fs' e.path ino e.size fh offset size env).1 = .ok bytes := by
    intro fs' hbackend
    refine ⟨(slice w offset (offset + fetchSize cfg (readChunk fs' fh).1 e.size offset
      size)).take size, ?_⟩
    simp [readRemote, readRange, hremote, hbackend, hobject, tryBackendOrStale]
  unfold read
  simp only [he]
  split
  · exact ⟨_, rfl⟩
  · split
    · exact ⟨_, rfl⟩
    · obtain ⟨index, mem, blocks, hblock⟩ :=
        readBlock_frame cfg fs e.path ino (offset / cacheBlockSize) env.now
      split
      · exact ⟨_, rfl⟩
      · next fs₁ hread =>
        rw [hread] at hblock
        split
        · exact ⟨_, rfl⟩
        · obtain ⟨index', mem', whole, hfile, -⟩ :=
            readFileCache_frame cfg fs₁ e.path ino e.size offset size env.now
          split
          · exact ⟨_, rfl⟩
          · next fs₂ hread' =>
            rw [hread'] at hfile
            refine hfetched fs₂ ?_
            simp only at hblock hfile
            rw [hfile, hblock]

/-- A read inside the file is exact, byte for byte up to the end of the request or of the file,
if and only if the place that answers it reaches that far: the unflushed buffer, the block
around the offset, the prefetched part, or the capped fetch. -/
theorem read_exact_iff {cfg : Config} {fs : MntrsFs} {env : ReadEnv} {path : Path} {ino : Ino}
    {fh : Fh} {offset size : Nat} {w bytes : Bytes}
    (h : Consistent cfg fs env path ino fh offset w)
    (hok : (read cfg fs ino fh offset size env).1 = .ok bytes) :
    bytes = slice w offset (min (offset + size) w.length) ↔
      (offset < w.length → 0 < size →
        min (offset + size) w.length ≤
          servedUpTo cfg fs path ino w.length fh offset size env) := by
  by_cases hoffset : offset < w.length
  · rw [read_eq h hoffset hok, slice_eq_slice_iff]
    constructor
    · intro heq _ hsize
      omega
    · intro hreach
      by_cases hsize : 0 < size
      · omega
      · omega
  · obtain ⟨e, he, -, hlength⟩ := h.entry
    have hempty : bytes = [] := by
      simpa [read, he, hlength, Nat.not_lt.mp hoffset] using hok.symm
    constructor
    · intro _ hlt
      exact absurd hlt hoffset
    · intro _
      rw [hempty]
      simp only [slice]
      rw [List.drop_eq_nil_of_le (by omega), List.take_nil]

/-- A file `a` with content `w`, some blocks of which are in memory. -/
def oneFile (w : Bytes) (mem : Nat → Option Bytes) : MntrsFs :=
  { MntrsFs.mounted (Function.update (fun _ ↦ none) ['a'] (some w)) .empty with
    inodes := AList.insert 2 ⟨['a'], .regularFile, w.length, none⟩ ∅
    memCache := Function.update (fun _ _ ↦ none) 2 mem }

theorem consistent_oneFile (cfg : Config) (offset : Nat) (w : Bytes) {mem : Nat → Option Bytes}
    (hmem : ∀ i data, mem i = some data → IsPiece w (i * cacheBlockSize) data) :
    Consistent cfg (oneFile w mem) .ok ['a'] 2 0 offset w where
  entry := ⟨⟨['a'], .regularFile, w.length, none⟩, AList.lookup_insert _, rfl, rfl⟩
  handle := fun _ hb ↦ by cases hb
  buffer := fun _ hb ↦ by cases hb
  fd := fun _ _ hlookup ↦ by cases hlookup
  mem := by
    intro i data hdata
    exact hmem i data hdata
  block := fun _ _ hfile ↦ by cases hfile
  part := fun _ _ hpart ↦ by cases hpart
  file := fun _ hdata ↦ by cases hdata
  object := .inl (by simp [oneFile, MntrsFs.mounted])

/-- A small file is fetched whole. -/
theorem read_exact_iff_sample :
    (read (.plain .full) (oneFile [7, 8] fun _ ↦ none) 2 0 0 2 .ok).1 = .ok [7, 8] ∧
      (([7, 8] : Bytes) = slice [7, 8] 0 (min (0 + 2) 2) ↔
        (0 < 2 → 0 < 2 → min (0 + 2) 2 ≤ servedUpTo (.plain .full)
          (oneFile [7, 8] fun _ ↦ none) ['a'] 2 2 0 0 2 .ok)) := by
  have hok : (read (.plain .full) (oneFile [7, 8] fun _ ↦ none) 2 0 0 2 .ok).1 = .ok [7, 8] := by
    decide
  exact ⟨hok, read_exact_iff (consistent_oneFile _ 0 _ fun _ _ h ↦ by cases h) hok⟩

/-- A request for two bytes across the end of the first block, which is in memory, is answered
with one byte, although the file goes on. -/
theorem read_stops_at_block :
    let w : Bytes := List.replicate (cacheBlockSize + 1) 7
    let fs := oneFile w (Function.update (fun _ ↦ none) 0 (some (w.take cacheBlockSize)))
    let offset := cacheBlockSize - 1
    Consistent (.plain .full) fs .ok ['a'] 2 0 offset w ∧
      ∃ bytes, (read (.plain .full) fs 2 0 offset 2 .ok).1 = .ok bytes ∧
        bytes ≠ slice w offset (min (offset + 2) w.length) := by
  intro w fs offset
  have hB : 0 < cacheBlockSize := by decide
  have hlength : w.length = cacheBlockSize + 1 := List.length_replicate
  have hdiv : offset / cacheBlockSize = 0 := Nat.div_eq_of_lt (Nat.sub_lt hB Nat.one_pos)
  have hconsistent : Consistent (.plain .full) fs .ok ['a'] 2 0 offset w := by
    apply consistent_oneFile
    intro i data hdata
    by_cases hi : i = 0
    · subst hi
      simp only [Function.update_self, Option.some.injEq] at hdata
      rw [← hdata]
      exact List.take_prefix _ _
    · simp [hi] at hdata
  refine ⟨hconsistent, ?_⟩
  have hblock : (readBlock (.plain .full) fs ['a'] 2 (offset / cacheBlockSize) 0).1 =
      some (w.take cacheBlockSize) := by
    rw [hdiv]
    simp [readBlock, fs, oneFile]
  obtain ⟨e, he, hpath, -⟩ := hconsistent.entry
  obtain ⟨bytes, hok⟩ := @read_answers (.plain .full) fs 2 e w .ok 0 offset 2 he
    (by simp [hpath, fs, oneFile, MntrsFs.mounted]) rfl
  refine ⟨bytes, hok, ?_⟩
  intro hexact
  have hreach := (read_exact_iff hconsistent hok).mp hexact (by omega) (by omega)
  have hserved : servedUpTo (.plain .full) fs ['a'] 2 w.length 0 offset 2 .ok =
      cacheBlockSize := by
    have hbuffer : answeringBuffer (.plain .full) fs ['a'] w.length 0 offset = none := rfl
    have hnow : ReadEnv.ok.now = 0 := rfl
    simp only [servedUpTo, hbuffer, hnow, hblock]
    rw [hdiv, List.length_take]
    omega
  omega

/-! ### Files that read as a content -/

theorem fetchSize_pos (cfg : Config) (chunk : Nat) (hoffset : offset < fileSize)
    (hsize : 0 < size) :
    0 < fetchSize cfg chunk fileSize offset size := by
  have hchunk : 0 < (if 0 < chunk then chunk
      else if 0 < cfg.readChunkSize then cfg.readChunkSize else 8 * 1024 * 1024) := by
    split
    · assumption
    · split
      · assumption
      · decide
  have hcap : 0 < (if fileSize ≤ 256 * 1024 * 1024 then fileSize else 16 * 1024 * 1024) := by
    split <;> omega
  have hrest : 0 < fileSize - offset := by omega
  simp only [fetchSize]
  generalize (if fileSize ≤ 256 * 1024 * 1024 then fileSize else 16 * 1024 * 1024) = hardCap
    at hcap ⊢
  split
  · exact lt_min (lt_min hchunk hcap) hrest
  · exact lt_min (lt_min (lt_min hsize hchunk) hcap) hrest

/-- The handle is not one of a writer. -/
def notWriter (fs : MntrsFs) (fh : Fh) : Bool :=
  match fs.handles.lookup fh with
  | some (.write _) => false
  | _ => true

/-- The caches and the backend hold `w` for a file, block by block, and no buffer holds
anything newer. -/
structure Holds (cfg : Config) (fs : MntrsFs) (path : Path) (ino : Ino) (w : Bytes) : Prop where
  entry : ∃ e, fs.inodes.lookup ino = some e ∧ e.path = path ∧ e.size = w.length
  mem : ∀ i data, fs.memCache ino i = some data →
    data = slice w (i * cacheBlockSize) ((i + 1) * cacheBlockSize)
  block : ∀ i file, fs.disk.block (cfg.writeBufferPath path) i = some file → file.path = path →
    file.data = slice w (i * cacheBlockSize) ((i + 1) * cacheBlockSize)
  file : ∀ data, MntrsFs.cacheFile cfg fs path = some data → data = w
  object : fs.backend path = some w
  buffer : ∀ b, fs.offModeBuffers path = some b → (fs.buffers b).dirty = false

theorem Holds.consistent (h : Holds cfg fs path ino w) (offset : Nat) (hfh : notWriter fs fh)
    (hpopped : env.popped = none) :
    Consistent cfg fs env path ino fh offset w where
  entry := h.entry
  handle := by
    intro b hb
    unfold handleBuffer at hb
    split at hb
    · next hlookup => simp [notWriter, hlookup] at hfh
    · cases hb
  buffer := by
    intro b hb hdirty
    simp [h.buffer b hb] at hdirty
  fd := by
    intro w' f hlookup _
    simp [notWriter, hlookup] at hfh
  mem := fun i data hdata ↦ h.mem i data hdata ▸ IsPiece.of_slice ..
  block := fun i file hfile hpath ↦ h.block i file hfile hpath ▸ IsPiece.of_slice ..
  part := by
    intro start data hpart
    unfold poppedPart at hpart
    split at hpart
    · split at hpart
      · simp [hpopped] at hpart
      · cases hpart
    · cases hpart
  file := fun data hdata ↦ h.file data hdata ▸ IsPiece.refl data
  object := .inl h.object

theorem Holds.answeringBuffer_eq_none (h : Holds cfg fs path ino w) (fileSize offset : Nat)
    (hfh : notWriter fs fh) : answeringBuffer cfg fs path fileSize fh offset = none := by
  have hpath : ((fs.offModeBuffers path).map fs.buffers).bind
      (fun buf ↦ if buf.dirty ∧ fileSize ≤ buf.data.length then some buf.data else none) =
        none := by
    cases hb : fs.offModeBuffers path with
    | none => rfl
    | some b => simp [h.buffer b hb]
  unfold answeringBuffer
  simp only [hpath]
  cases hlookup : fs.handles.lookup fh with
  | none => simp [handleBuffer, hlookup]
  | some handle =>
    cases handle with
    | read r => simp [handleBuffer, hlookup]
    | write w => simp [notWriter, hlookup] at hfh

/-- Every read of an inode through a reader's handle is answered with bytes of `w` from the
offset on, at least one of them where the file has any. -/
def ReadsAs (cfg : Config) (fs : MntrsFs) (ino : Ino) (w : Bytes) : Prop :=
  ∀ fh offset size env, notWriter fs fh = true → env.popped = none → env.remote = none →
    ∃ bytes, (read cfg fs ino fh offset size env).1 = .ok bytes ∧ IsPiece w offset bytes ∧
      bytes.length ≤ size ∧ (offset < w.length → 0 < size → bytes ≠ [])

/-- A file that holds `w` reads as `w`. -/
theorem Holds.readsAs (h : Holds cfg fs path ino w) : ReadsAs cfg fs ino w := by
  intro fh offset size env hfh hpopped hremote
  obtain ⟨e, he, hpath, hlength⟩ := h.entry
  obtain ⟨bytes, hok⟩ := read_answers fh offset size he (hpath ▸ h.object) hremote
  refine ⟨bytes, hok, ?_⟩
  have hconsistent := h.consistent offset hfh hpopped
  by_cases hoffset : offset < w.length
  · have hbytes := read_eq hconsistent hoffset hok
    set stop := servedUpTo cfg fs path ino w.length fh offset size env with hstop
    refine ⟨hbytes ▸ IsPiece.of_slice .., ?_, fun _ hsize ↦ ?_⟩
    · rw [hbytes, length_slice]
      omega
    · have hreach : offset < stop := by
        rw [hstop]
        unfold servedUpTo
        simp only [h.answeringBuffer_eq_none _ _ hfh]
        cases hblock : (readBlock cfg fs path ino (offset / cacheBlockSize) env.now).1 with
        | some data =>
          have hdata : data = slice w (offset / cacheBlockSize * cacheBlockSize)
              ((offset / cacheBlockSize + 1) * cacheBlockSize) := by
            rcases readBlock_some hblock with hmem | ⟨file, hfile, hpath', rfl⟩
            · exact h.mem _ data hmem
            · exact h.block _ file hfile hpath'
          have hnext := Nat.lt_mul_div_succ offset (show 0 < cacheBlockSize by decide)
          rw [Nat.mul_comm] at hnext
          simp only
          rw [hdata, length_slice]
          omega
        | none =>
          have hpart : poppedPart fs fh env = none := by
            unfold poppedPart
            split
            · simp [hpopped]
            · rfl
          have hfetch := fetchSize_pos cfg (readChunk fs fh).1 hoffset hsize
          simp only [hpart, hremote]
          split <;> omega
      intro hempty
      have hnone := congrArg List.length (hbytes.symm.trans hempty)
      rw [length_slice, List.length_nil] at hnone
      omega
  · have hempty : bytes = [] := by
      simpa [read, he, hlength, Nat.not_lt.mp hoffset] using hok.symm
    subst hempty
    exact ⟨List.nil_prefix, Nat.zero_le _, fun hlt ↦ absurd hlt hoffset⟩

end Mntrs

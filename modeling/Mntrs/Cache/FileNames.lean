import Mathlib.Data.List.ReduceOption
import Mathlib.Data.List.TakeWhile
import Mntrs.Base.Numerals
import Mntrs.Base.Segments
import Mntrs.Model.State

/-!
# Names of cache files

Models `cache_path_block`, `write_buffer_path` and `disk_cache_block_path`
(`src/src/util.rs:509-590`), the sidecars beside a write buffer (`with_extension`) and
`load_cache_index` (`src/src/block_format.rs:641-664`), which reads the block indices off the
names again. All files are in one directory, so that only their names differ.
-/

namespace Mntrs

open Base

/-- `cache_path_block`. -/
def cachePathBlock (salt : UInt64) (path : Path) (blockIndex : UInt64) : Path :=
  let base := padded 16 20 (pathHash salt path).toNat
  if blockIndex = 0 then base else base ++ '_' :: padded 16 4 blockIndex.toNat

/-- `write_buffer_path`. -/
def writeBufferPath (salt : UInt64) (path : Path) : Path := cachePathBlock salt path 0

/-- `disk_cache_block_path`. -/
def diskCacheBlockPath (salt : UInt64) (path : Path) (blockIdx : UInt64) : Path :=
  padded 16 20 (pathHash salt path).toNat ++ '_' :: padded 16 10 blockIdx.toNat ++ ".block".toList

/-- `Path::file_stem`: a dot at the start does not begin an extension. -/
def fileStem (name : Path) : Path :=
  match name.reverse.dropWhile (· ≠ '.') with
  | [] | [_] => name
  | _ :: stem => stem.reverse

/-- `Path::with_extension`. -/
def withExtension (name extension : Path) : Path :=
  if extension = [] then fileStem name else fileStem name ++ '.' :: extension

/-- A file of the cache directory. -/
inductive CacheFile where
  | writeBuffer (path : Path)
  | dirty (path : Path)
  | metaFile (path : Path)
  | block (path : Path) (blockIdx : UInt64)

/-- What a file is for. -/
inductive CacheFile.Kind where
  | writeBuffer
  | dirty
  | metaFile
  | block
  deriving DecidableEq

def CacheFile.kind : CacheFile → CacheFile.Kind
  | .writeBuffer _ => .writeBuffer
  | .dirty _ => .dirty
  | .metaFile _ => .metaFile
  | .block _ _ => .block

def CacheFile.name (salt : UInt64) : CacheFile → Path
  | .writeBuffer path => writeBufferPath salt path
  | .dirty path => withExtension (writeBufferPath salt path) "dirty".toList
  | .metaFile path => withExtension (writeBufferPath salt path) "meta".toList
  | .block path blockIdx => diskCacheBlockPath salt path blockIdx

/-! ## Reading the names -/

/-- `u64::from_str_radix` of base sixteen: a plus may stand before the digits, and a value that
does not fit is an error. -/
def u64FromHex (text : Path) : Option UInt64 :=
  let digits := match text with
    | '+' :: rest => rest
    | _ => text
  if digits = [] then none
  else do
    let value ← readDigits 16 0 digits
    if value < 2 ^ 64 then some (UInt64.ofNat value) else none

/-- What `metadata` tells of a file; `modified` may fail. -/
structure FileMeta where
  len : Nat
  modified : Option Nat

/-- An entry of `read_dir`. -/
structure CacheDirEntry where
  fileName : Path
  metadata : Option FileMeta

structure CacheIndexEntry where
  name : Path
  blockIdx : UInt64
  size : Nat
  mtime : Nat
  deriving DecidableEq

/-- A round of the loop of `load_cache_index`. -/
def cacheIndexEntry (entry : CacheDirEntry) : Option CacheIndexEntry := do
  let rest ← entry.fileName.dropSuffix? ".block".toList
  let blockStr ← (rest.splitOn '_')[1]?
  let blockIdx ← u64FromHex blockStr
  let metadata ← entry.metadata
  let mtime ← metadata.modified
  return ⟨entry.fileName, blockIdx, metadata.len, mtime⟩

/-- `load_cache_index`: a directory that cannot be read and entries that fail are passed over. -/
def loadCacheIndex (readDir : Option (List (Option CacheDirEntry))) : List CacheIndexEntry :=
  match readDir with
  | none => []
  | some entries => entries.reduceOption.filterMap cacheIndexEntry

/-! ## Names are numerals -/

variable {salt : UInt64} {p q : Path} {i j : UInt64} {c : Char} {n width : Nat}

theorem notMem_padded (hc : readDigit 16 c = none) : c ∉ padded 16 width n :=
  fun hmem ↦ readDigit_of_mem_padded (by decide) (by decide) width hmem hc

theorem u64FromHex_padded (i : UInt64) : u64FromHex (padded 16 width i.toNat) = some i := by
  have hread : readDigits 16 0 (padded 16 width i.toNat) = some i.toNat :=
    readDigits_padded_self (by decide) (by decide) width
  have hplus : '+' ∉ padded 16 width i.toNat := notMem_padded rfl
  cases hpadded : padded 16 width i.toNat with
  | nil => exact absurd hpadded (padded_ne_nil 16 width i.toNat)
  | cons d ds =>
    rw [hpadded] at hread hplus
    have hd : d ≠ '+' := by
      rintro rfl
      simp at hplus
    simpa [u64FromHex, hd, hread] using i.toNat_lt

/-- A write buffer has no dot in its name, so that its sidecars end in one extension. -/
theorem withExtension_writeBufferPath {extension : Path} (h : extension ≠ []) :
    withExtension (writeBufferPath salt p) extension =
      padded 16 20 (pathHash salt p).toNat ++ '.' :: extension := by
  have hbase : writeBufferPath salt p = padded 16 20 (pathHash salt p).toNat := rfl
  have hdrop : (writeBufferPath salt p).reverse.dropWhile (· ≠ '.') = [] := by
    rw [List.dropWhile_eq_nil_iff]
    intro d hd
    have hne : d ≠ '.' := by
      rintro rfl
      exact notMem_padded rfl (List.mem_reverse.mp hd)
    simpa using hne
  rw [withExtension, if_neg h, fileStem, hdrop, hbase]

/-- What the name of a file of a kind ends in. -/
def CacheFile.Kind.ending : CacheFile.Kind → Path
  | .writeBuffer => []
  | .dirty => ".dirty".toList
  | .metaFile => ".meta".toList
  | .block => ".block".toList

theorem CacheFile.Kind.ending_inj {k k' : CacheFile.Kind} (h : k.ending = k'.ending) : k = k' := by
  revert h
  cases k <;> cases k' <;> decide

/-- What stands before the ending of a name has neither a dot nor a `k`. -/
theorem CacheFile.name_eq (salt : UInt64) (f : CacheFile) :
    ∃ base, f.name salt = base ++ f.kind.ending ∧ '.' ∉ base ∧ 'k' ∉ base := by
  cases f with
  | writeBuffer path =>
    exact ⟨_, (List.append_nil _).symm, notMem_padded rfl, notMem_padded rfl⟩
  | dirty path | metaFile path =>
    exact ⟨_, withExtension_writeBufferPath (by decide), notMem_padded rfl, notMem_padded rfl⟩
  | block path blockIdx =>
    refine ⟨padded 16 20 (pathHash salt path).toNat ++ '_' :: padded 16 10 blockIdx.toNat, rfl,
      ?_, ?_⟩
    · simp [notMem_padded (c := '.') rfl]
    · simp [notMem_padded (c := 'k') rfl]

/-- A name shows the kind: its ending is what stands from the first dot on. -/
theorem CacheFile.dropWhile_name (salt : UInt64) (f : CacheFile) :
    (f.name salt).dropWhile (· ≠ '.') = f.kind.ending := by
  obtain ⟨base, hname, hdot, _⟩ := f.name_eq salt
  rw [hname, List.dropWhile_append_of_pos]
  · cases f <;> rfl
  · intro d hd
    have hne : d ≠ '.' := fun heq ↦ hdot (heq ▸ hd)
    simpa using hne

theorem diskCacheBlockPath_inj :
    diskCacheBlockPath salt p i = diskCacheBlockPath salt q j ↔
      pathHash salt p = pathHash salt q ∧ i = j := by
  constructor
  · intro h
    have hnumerals := List.append_cancel_right h
    obtain ⟨hhash, hidx⟩ := append_sep_inj (notMem_padded rfl) (notMem_padded rfl) hnumerals
    exact ⟨UInt64.toNat.inj (padded_inj (by decide) (by decide) 20 hhash),
      UInt64.toNat.inj (padded_inj (by decide) (by decide) 10 hidx)⟩
  · rintro ⟨hhash, rfl⟩
    rw [diskCacheBlockPath, diskCacheBlockPath, hhash]

/-! ## The index of a directory -/

/-- The index entry of a block file whose metadata can be read; other files have none. -/
def CacheFile.indexEntry (salt : UInt64) (metadata : Option FileMeta) :
    CacheFile → Option CacheIndexEntry
  | .block path blockIdx => do
    let metadata ← metadata
    let mtime ← metadata.modified
    return ⟨diskCacheBlockPath salt path blockIdx, blockIdx, metadata.len, mtime⟩
  | _ => none

/-- Only the ending of a block file has a `k` in it. -/
private theorem cacheIndexEntry_eq_none {f : CacheFile} (hkind : 'k' ∉ f.kind.ending)
    (metadata : Option FileMeta) : cacheIndexEntry ⟨f.name salt, metadata⟩ = none := by
  have hsuffix : (f.name salt).dropSuffix? ".block".toList = none := by
    rw [Option.eq_none_iff_forall_ne_some]
    intro rest hrest
    obtain ⟨ending, hname, heq⟩ := List.dropSuffix?_eq_some_iff.mp hrest
    have hmem : 'k' ∈ f.name salt := by
      rw [hname, beq_iff_eq.mp heq]
      simp
    obtain ⟨base, hbase, _, hk⟩ := f.name_eq salt
    rw [hbase, List.mem_append] at hmem
    exact hmem.elim hk hkind
  rw [cacheIndexEntry, hsuffix]
  rfl

theorem cacheIndexEntry_name (salt : UInt64) (f : CacheFile) (metadata : Option FileMeta) :
    cacheIndexEntry ⟨f.name salt, metadata⟩ = f.indexEntry salt metadata := by
  cases f with
  | block path blockIdx =>
    have hsuffix : (diskCacheBlockPath salt path blockIdx).dropSuffix? ".block".toList =
        some (padded 16 20 (pathHash salt path).toNat ++ '_' :: padded 16 10 blockIdx.toNat) :=
      List.dropSuffix?_eq_some_iff.mpr ⟨_, rfl, beq_self_eq_true _⟩
    have hsplit : (padded 16 20 (pathHash salt path).toNat ++
        '_' :: padded 16 10 blockIdx.toNat).splitOn '_' =
        [padded 16 20 (pathHash salt path).toNat, padded 16 10 blockIdx.toNat] := by
      rw [List.splitOn_append_cons_self, List.splitOn_eq_singleton (notMem_padded rfl),
        List.splitOn_eq_singleton (notMem_padded rfl)]
      rfl
    have hidx : (u64FromHex (padded 16 10 blockIdx.toNat)) = some blockIdx :=
      u64FromHex_padded blockIdx
    simp only [cacheIndexEntry, CacheFile.name, CacheFile.indexEntry, hsuffix, hsplit,
      Option.bind_eq_bind, Option.bind_some, List.getElem?_cons_succ, List.getElem?_cons_zero,
      hidx]
  | writeBuffer path => exact cacheIndexEntry_eq_none List.not_mem_nil metadata
  | dirty path =>
    apply cacheIndexEntry_eq_none
    show 'k' ∉ ".dirty".toList
    decide
  | metaFile path =>
    apply cacheIndexEntry_eq_none
    show 'k' ∉ ".meta".toList
    decide

/-- Names tell the kinds of files apart, and block files by hash and index. From a directory of
such files, some of which may fail to be read, the index gets the block files that can be read,
each with the index it was named after. -/
theorem cacheFile_names_sound (salt : UInt64) :
    (∀ f g : CacheFile, f.name salt = g.name salt → f.kind = g.kind) ∧
    (∀ (p q : Path) (i j : UInt64),
      (CacheFile.block p i).name salt = (CacheFile.block q j).name salt ↔
        pathHash salt p = pathHash salt q ∧ i = j) ∧
    ∀ files : List (Option (CacheFile × Option FileMeta)),
      loadCacheIndex (some (files.map (Option.map (fun f ↦ ⟨f.1.name salt, f.2⟩)))) =
        files.reduceOption.filterMap (fun f ↦ f.1.indexEntry salt f.2) := by
  refine ⟨fun f g h ↦ ?_, fun p q i j ↦ diskCacheBlockPath_inj, fun files ↦ ?_⟩
  · apply CacheFile.Kind.ending_inj
    rw [← f.dropWhile_name salt, h, g.dropWhile_name]
  · rw [loadCacheIndex, List.reduceOption_map, List.filterMap_map]
    congr 1
    funext f
    exact cacheIndexEntry_name salt f.1 f.2

/-- Of a block file beside its write buffer and an entry that fails, the block is indexed. -/
theorem cacheFile_names_sound_sample :
    (CacheFile.block ['a'] 42).kind = CacheFile.Kind.block ∧
    loadCacheIndex (some [some ⟨writeBufferPath 0 ['a'], some ⟨7, some 1⟩⟩, none,
      some ⟨diskCacheBlockPath 0 ['a'] 42, some ⟨9, some 2⟩⟩]) =
        [⟨diskCacheBlockPath 0 ['a'] 42, 42, 9, 2⟩] :=
  ⟨(cacheFile_names_sound 0).1 (.block ['a'] 42) (.block ['a'] 42) rfl,
    (cacheFile_names_sound 0).2.2
      [some (.writeBuffer ['a'], some ⟨7, some 1⟩), none, some (.block ['a'] 42, some ⟨9, some 2⟩)]⟩

end Mntrs

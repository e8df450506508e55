import Mntrs.Base.LittleEndian
import Mntrs.Fs.Read

/-!
# Block files

Models `src/src/block_format.rs`: `serialize_v3_block` (`516-547`), `read_block_cached` (`194-291`),
`read_new_format` (`305-470`) and `decode_lz4_payload` (`476-501`). The crates that compress and
compute checksums are a parameter, `BlockCodec`; what is assumed of them is `BlockCodec.Lawful`.
A `none` of the readers is a panic: an index out of bounds or a difference below zero.
-/

namespace Mntrs

open Base

variable {c : BlockCodec} {data : Bytes} {path : Path}

/-- `BLOCK_CRC_TRAILER`. -/
def blockCrcTrailer : Nat := 4

/-- `BLOCK_MAGIC`, `MNCR`. -/
def blockMagic : Bytes := [0x4D, 0x4E, 0x43, 0x52]

/-- `BLOCK_FORMAT_VERSION`. -/
def blockFormatVersion : Nat := 3

/-- `LEGACY_BLOCK_FORMAT_VERSION_V1`. -/
def legacyBlockFormatVersionV1 : Nat := 1

/-- `LEGACY_BLOCK_FORMAT_VERSION_V2`. -/
def legacyBlockFormatVersionV2 : Nat := 2

/-- `BLOCK_HEADER_SIZE`. -/
def blockHeaderSize : Nat := 8

/-- `MAX_PAYLOAD_OVERHEAD`. -/
def maxPayloadOverhead : Nat := 65536

/-- The functions of `lz4_flex` and `crc32c` the format uses. -/
structure BlockCodec where
  compressPrependSize : Bytes → Bytes
  decompressSizePrepended : Bytes → Option Bytes
  crc32c : Bytes → UInt32
  crc32cAppend : UInt32 → Bytes → UInt32

/-- What the format rests on: decompression undoes compression, which adds little to
incompressible data, and a checksum can be continued. -/
structure BlockCodec.Lawful (c : BlockCodec) : Prop where
  decompress_compress : ∀ data, c.decompressSizePrepended (c.compressPrependSize data) = some data
  length_compress_le : ∀ data,
    (c.compressPrependSize data).length ≤ data.length + data.length / 255 + 20
  crc32cAppend_crc32c : ∀ a b, c.crc32cAppend (c.crc32c a) b = c.crc32c (a ++ b)

/-- `crc32c_checksum_concat`. -/
def BlockCodec.crc32cChecksumConcat (c : BlockCodec) (a b : Bytes) : UInt32 :=
  c.crc32cAppend (c.crc32c a) b

/-! ### The writer -/

/-- The magic and the version of a block as it is written today. -/
def blockHeader : Bytes := blockMagic ++ leBytes 4 blockFormatVersion

/-- `serialize_v3_block`: `none` for a path that is too long to be embedded. -/
def serializeV3Block (c : BlockCodec) (path : Path) (data : Bytes) : Option Bytes :=
  let pathBytes := utf8 path
  if maxPathLen < pathBytes.length then none
  else
    let compressed := c.compressPrependSize data
    let pathBlock := leBytes 2 pathBytes.length ++ pathBytes
    let buf := blockHeader ++ (pathBlock ++ compressed)
    let crc := c.crc32cChecksumConcat blockHeader (buf.drop blockHeaderSize)
    some (buf ++ leBytes 4 crc.toNat)

/-! ### The reader -/

/-- The answer of a read of a block file, and whether it called `remove_file`. -/
structure BlockRead where
  answer : Option Bytes
  removes : Bool
deriving DecidableEq, Repr

/-- The file cannot be read. -/
def BlockRead.unread : BlockRead := ⟨none, false⟩

/-- The file is taken for corrupt. -/
def BlockRead.corrupt : BlockRead := ⟨none, true⟩

/-- The file holds the block. -/
def BlockRead.hit (data : Bytes) : BlockRead := ⟨some data, false⟩

/-- `decode_lz4_payload`. -/
def decodeLz4Payload (c : BlockCodec) (content : Bytes) : BlockRead :=
  match c.decompressSizePrepended content with
  | some data => if data.length ≤ cacheBlockSize then .hit data else .corrupt
  | none => .corrupt

/-- The content of a version 3 file, `403-455`: a path with its length, then the payload. -/
def readV3Content (c : BlockCodec) (content : Bytes) (expectedPath : Path) : Option BlockRead := do
  if content.length < 2 then return .corrupt
  let pathLen := leNat (← slice? content 0 2)
  if maxPathLen < pathLen ∨ content.length < 2 + pathLen then return .corrupt
  let pathBytes ← slice? content 2 (2 + pathLen)
  match fromUtf8 pathBytes with
  | some p =>
    if p = expectedPath then
      return decodeLz4Payload c (← slice? content (2 + pathLen) content.length)
    else return .corrupt
  | none => return .corrupt

/-- `read_new_format`. -/
def readNewFormat (c : BlockCodec) (data : Bytes) (expectedPath : Path) : Option BlockRead := do
  let afterHeader ← slice? data blockHeaderSize data.length
  if afterHeader.length < blockCrcTrailer then return .corrupt
  let contentEnd ← checkedSub afterHeader.length blockCrcTrailer
  let content ← slice? afterHeader 0 contentEnd
  let trailer ← slice? afterHeader contentEnd afterHeader.length
  if trailer.length ≠ blockCrcTrailer then return .corrupt
  let covered ← slice? data 0 (← checkedSub data.length blockCrcTrailer)
  if leNat trailer ≠ (c.crc32c covered).toNat then return .corrupt
  let version := leNat (← slice? data 4 8)
  if version = legacyBlockFormatVersionV1 then return .hit content
  else if version = legacyBlockFormatVersionV2 then return decodeLz4Payload c content
  else if version = blockFormatVersion then readV3Content c content expectedPath
  else return .corrupt

/-- The parsers of files without a header, `232-290`. -/
def readLegacy (c : BlockCodec) (size : Nat) (data : Bytes) : Option BlockRead := do
  if size = cacheBlockSize + blockCrcTrailer then
    let content ← slice? data 0 cacheBlockSize
    let trailer ← slice? data cacheBlockSize data.length
    if trailer.length ≠ blockCrcTrailer then return .corrupt
    if leNat trailer ≠ (c.crc32c content).toNat then return .corrupt
    return .hit content
  else if size = cacheBlockSize then return .hit data
  else if size < cacheBlockSize then return .hit data
  else return .corrupt

/-- The largest file `read_block_cached` looks into. -/
def blockSizeGate : Nat :=
  cacheBlockSize + blockOverhead + maxPayloadOverhead + maxPathLen + 2

/-- `read_block_cached` with what the host answers: the length the metadata give, and the bytes
read afterwards. -/
def readBlockCached (c : BlockCodec) (metadata : Option Nat) (contents : Option Bytes)
    (expectedPath : Path) : Option BlockRead := do
  match metadata with
  | none => return .unread
  | some size =>
    if blockSizeGate < size then return .corrupt
    match contents with
    | none => return .unread
    | some data =>
      if blockHeaderSize ≤ data.length then
        if (← slice? data 0 4) = blockMagic then readNewFormat c data expectedPath
        else readLegacy c size data
      else readLegacy c size data

/-- What the host does with the calls of a read: whether it has metadata and bytes for it, and
whether it removes the file. -/
structure HostRead where
  metadata : Bool
  read : Bool
  removeFile : Bool
deriving DecidableEq, Repr

/-- The host serves every call. -/
def HostRead.ok : HostRead := ⟨true, true, true⟩

/-- `read_block_cached` on a host file: the answer, and what is left of the file. -/
def readBlockFile (c : BlockCodec) (host : HostRead) (file : Option Bytes) (expectedPath : Path) :
    Option (Option Bytes × Option Bytes) :=
  let metadata := if host.metadata then file.map List.length else none
  let contents := if host.read then file else none
  (readBlockCached c metadata contents expectedPath).map
    (fun r ↦ (r.answer, if r.removes ∧ host.removeFile then none else file))

/-! ### The readers without their checks

A file with a header has everything its reader takes, so the reader is a case distinction over the
file. -/

/-- The bytes between the header and the trailer. -/
def blockContent (data : Bytes) : Bytes :=
  (data.take (data.length - blockCrcTrailer)).drop blockHeaderSize

/-- The version field. -/
def blockVersion (data : Bytes) : Nat := leNat ((data.take 8).drop 4)

/-- The last four bytes are the checksum of the bytes before them. -/
def EndsInCrc (c : BlockCodec) (data : Bytes) : Prop :=
  leNat (data.drop (data.length - blockCrcTrailer)) =
    (c.crc32c (data.take (data.length - blockCrcTrailer))).toNat

instance (c : BlockCodec) (data : Bytes) : Decidable (EndsInCrc c data) :=
  inferInstanceAs (Decidable (_ = _))

/-- A file with a header is read without a panic: its length and its checksum are tested, then the
version decides. -/
theorem readNewFormat_eq (c : BlockCodec) (p : Path) (hlen : blockHeaderSize ≤ data.length) :
    readNewFormat c data p =
      if data.length < blockOverhead ∨ ¬ EndsInCrc c data then some .corrupt
      else if blockVersion data = legacyBlockFormatVersionV1 then some (.hit (blockContent data))
      else if blockVersion data = legacyBlockFormatVersionV2 then
        some (decodeLz4Payload c (blockContent data))
      else if blockVersion data = blockFormatVersion then readV3Content c (blockContent data) p
      else some .corrupt := by
  have hafter : slice? data blockHeaderSize data.length = some (data.drop blockHeaderSize) := by
    rw [slice?_of_le hlen le_rfl, List.take_length]
  unfold readNewFormat
  simp only [hafter, Option.bind_eq_bind, Option.bind_some, List.length_drop]
  by_cases hshort : data.length < blockOverhead
  · rw [if_pos (by simp only [blockHeaderSize, blockOverhead, blockCrcTrailer] at *; omega),
      if_pos (.inl hshort)]
    rfl
  · have hlong : 12 ≤ data.length := by simpa [blockOverhead] using hshort
    have hcontent : slice? (data.drop blockHeaderSize) 0
        (data.length - blockHeaderSize - blockCrcTrailer) = some (blockContent data) := by
      rw [slice?_of_le (Nat.zero_le _) (by simp), List.drop_zero, blockContent, List.drop_take]
      congr 2
    have htrailer : slice? (data.drop blockHeaderSize)
        (data.length - blockHeaderSize - blockCrcTrailer) (data.length - blockHeaderSize) =
        some (data.drop (data.length - blockCrcTrailer)) := by
      rw [slice?_of_le (by omega) (by simp), List.take_of_length_le (by simp), List.drop_drop]
      simp only [blockHeaderSize, blockCrcTrailer]
      congr 2
      omega
    have hcovered : slice? data 0 (data.length - blockCrcTrailer) =
        some (data.take (data.length - blockCrcTrailer)) := by
      rw [slice?_of_le (Nat.zero_le _) (by omega), List.drop_zero]
    have hversion : slice? data 4 8 = some ((data.take 8).drop 4) :=
      slice?_of_le (by omega) (by omega)
    have htrailerLen : (data.drop (data.length - blockCrcTrailer)).length = blockCrcTrailer := by
      simp only [List.length_drop, blockCrcTrailer]
      omega
    have hroom : ¬ data.length - blockHeaderSize < blockCrcTrailer := by
      simp only [blockHeaderSize, blockCrcTrailer]
      omega
    have hcoveredLen : blockCrcTrailer ≤ data.length := by
      omega
    simp only [if_neg hroom, checkedSub_of_le (not_lt.mp hroom), checkedSub_of_le hcoveredLen,
      hcontent, htrailer, hcovered, hversion, htrailerLen, Option.bind_some, hshort, false_or,
      ne_eq, not_true_eq_false, if_false]
    rfl

/-- The content of a version 3 file is taken for corrupt, or its path is the expected one and the
rest is decompressed. -/
theorem readV3Content_cases (c : BlockCodec) (content : Bytes) (p : Path) :
    readV3Content c content p = some .corrupt ∨
      ∃ payload, readV3Content c content p = some (decodeLz4Payload c payload) := by
  unfold readV3Content
  by_cases hshort : content.length < 2
  · left
    rw [if_pos hshort]
    rfl
  · have hfield : slice? content 0 2 = some (content.take 2) := by
      rw [slice?_of_le (by omega) (by omega), List.drop_zero]
    simp only [if_neg hshort, hfield, Option.bind_eq_bind, Option.bind_some]
    split
    · exact .inl rfl
    · next hbound =>
      rw [not_or, not_lt, not_lt] at hbound
      rw [slice?_of_le (by omega) hbound.2, Option.bind_some]
      split
      · split
        · rw [slice?_of_le hbound.2 le_rfl]
          exact .inr ⟨_, rfl⟩
        · exact .inl rfl
      · exact .inl rfl

theorem readBlockFile_of_magic (c : BlockCodec) (p : Path) (hgate : data.length ≤ blockSizeGate)
    (hlen : blockHeaderSize ≤ data.length) (hmagic : data.take 4 = blockMagic) :
    readBlockFile c .ok (some data) p = (readNewFormat c data p).map
      (fun r ↦ (r.answer, if r.removes then none else some data)) := by
  have hslice : slice? data 0 4 = some blockMagic := by
    rw [slice?_of_le (by omega) (by simp only [blockHeaderSize] at hlen; omega), List.drop_zero,
      hmagic]
  simp [readBlockFile, readBlockCached, HostRead.ok, not_lt.mpr hgate, hlen, hslice]

theorem readBlockFile_of_oversize (c : BlockCodec) (p : Path) (h : blockSizeGate < data.length) :
    readBlockFile c .ok (some data) p = some (none, none) := by
  simp [readBlockFile, readBlockCached, HostRead.ok, h, BlockRead.corrupt]

/-! ### What is written is read -/

/-- Bytes followed by their checksum. -/
def sealBlock (c : BlockCodec) (bytes : Bytes) : Bytes := bytes ++ leBytes 4 (c.crc32c bytes).toNat

/-- What a block of today has between its header and its checksum. -/
def blockBody (c : BlockCodec) (path : Path) (data : Bytes) : Bytes :=
  leBytes 2 (utf8 path).length ++ (utf8 path ++ c.compressPrependSize data)

section

variable (c) (bytes : Bytes)

@[simp] theorem length_sealBlock : (sealBlock c bytes).length = bytes.length + 4 := by
  simp [sealBlock]

theorem take_sealBlock :
    (sealBlock c bytes).take ((sealBlock c bytes).length - blockCrcTrailer) = bytes := by
  rw [length_sealBlock, blockCrcTrailer, Nat.add_sub_cancel, sealBlock, List.take_left]

theorem endsInCrc_sealBlock : EndsInCrc c (sealBlock c bytes) := by
  rw [EndsInCrc, take_sealBlock, length_sealBlock, blockCrcTrailer, Nat.add_sub_cancel, sealBlock,
    List.drop_left, leNat_leBytes_of_lt]
  exact (c.crc32c bytes).toNat_lt

theorem length_blockHeader : blockHeader.length = blockHeaderSize := rfl

theorem blockContent_sealBlock (body : Bytes) :
    blockContent (sealBlock c (blockHeader ++ body)) = body := by
  rw [blockContent, take_sealBlock, ← length_blockHeader, List.drop_left]

end

theorem serializeV3Block_eq (hc : c.Lawful) (data : Bytes)
    (hpath : (utf8 path).length ≤ maxPathLen) :
    serializeV3Block c path data = some (sealBlock c (blockHeader ++ blockBody c path data)) := by
  rw [serializeV3Block, if_neg (not_lt.mpr hpath), ← length_blockHeader]
  simp [BlockCodec.crc32cChecksumConcat, hc.crc32cAppend_crc32c, sealBlock, blockBody]

theorem readV3Content_blockBody (c : BlockCodec) (data : Bytes) (p : Path)
    (hpath : (utf8 path).length ≤ maxPathLen) :
    readV3Content c (blockBody c path data) p =
      some (if path = p then decodeLz4Payload c (c.compressPrependSize data) else .corrupt) := by
  have hlen : (blockBody c path data).length =
      2 + (utf8 path).length + (c.compressPrependSize data).length := by
    simp [blockBody, Nat.add_assoc]
  have hfield : slice? (blockBody c path data) 0 2 = some (leBytes 2 (utf8 path).length) := by
    rw [slice?_of_le (by omega) (by omega), List.drop_zero, blockBody, List.take_left' (by simp)]
  have hnumber : leNat (leBytes 2 (utf8 path).length) = (utf8 path).length :=
    leNat_leBytes_of_lt (by simp only [maxPathLen] at hpath; omega)
  have hname : slice? (blockBody c path data) 2 (2 + (utf8 path).length) = some (utf8 path) :=
    slice?_append (leBytes 2 (utf8 path).length) (by simp) (by simp)
  have hpayload : slice? (blockBody c path data) (2 + (utf8 path).length)
      (blockBody c path data).length = some (c.compressPrependSize data) := by
    rw [slice?_of_le (by omega) le_rfl, List.take_length, blockBody, ← List.append_assoc]
    congr 1
    exact List.drop_left' (by simp)
  unfold readV3Content
  rw [if_neg (by omega)]
  simp only [hfield, hnumber, hname, hpayload, fromUtf8_utf8, Option.bind_eq_bind,
    Option.bind_some]
  rw [if_neg (by omega)]
  split <;> rfl

theorem decodeLz4Payload_compress (hc : c.Lawful) (hdata : data.length ≤ cacheBlockSize) :
    decodeLz4Payload c (c.compressPrependSize data) = .hit data := by
  simp [decodeLz4Payload, hc.decompress_compress, hdata]

/-- A serialised block passes the size gate: room is left for the growth of incompressible data. -/
theorem length_block_le_gate (hc : c.Lawful) (hpath : (utf8 path).length ≤ maxPathLen)
    (hdata : data.length ≤ cacheBlockSize) :
    (sealBlock c (blockHeader ++ blockBody c path data)).length ≤ blockSizeGate := by
  have hcompressed := hc.length_compress_le data
  rw [length_sealBlock, List.length_append, length_blockHeader]
  simp only [blockBody, List.length_append, length_leBytes]
  simp only [blockSizeGate, blockHeaderSize, blockOverhead, maxPayloadOverhead, maxPathLen,
    cacheBlockSize] at *
  omega

/-- A serialised block is read for its path, and removed by a read for another one. -/
theorem readBlockFile_serialized (hc : c.Lawful) (p : Path)
    (hpath : (utf8 path).length ≤ maxPathLen) (hdata : data.length ≤ cacheBlockSize) :
    readBlockFile c .ok (some (sealBlock c (blockHeader ++ blockBody c path data))) p =
      if path = p then
        some (some data, some (sealBlock c (blockHeader ++ blockBody c path data)))
      else some (none, none) := by
  set file := sealBlock c (blockHeader ++ blockBody c path data) with hfile
  have hfront : file = blockHeader ++ (blockBody c path data ++
      leBytes 4 (c.crc32c (blockHeader ++ blockBody c path data)).toNat) := by
    rw [hfile, sealBlock, List.append_assoc]
  have hlen : blockOverhead ≤ file.length := by
    rw [length_sealBlock, List.length_append, length_blockHeader]
    simp only [blockOverhead, blockHeaderSize]
    omega
  have hversion : blockVersion file = blockFormatVersion := by
    rfl
  have hmagic : file.take 4 = blockMagic := by
    rw [hfront, blockHeader, List.append_assoc]
    exact List.take_left' rfl
  have hheader : blockHeaderSize ≤ file.length := le_trans (by decide) hlen
  rw [readBlockFile_of_magic c p (length_block_le_gate hc hpath hdata) hheader hmagic,
    readNewFormat_eq c p hheader, if_neg (not_or.mpr ⟨not_lt.mpr hlen,
      not_not.mpr (endsInCrc_sealBlock c _)⟩), hversion,
    if_neg (by decide), if_neg (by decide), if_pos rfl, blockContent_sealBlock,
    readV3Content_blockBody c data p hpath, decodeLz4Payload_compress hc hdata]
  split <;> rfl

/-- **Round trip.** A block of any admissible path and size is read back for its path, and for no
other path, which also removes the file. -/
theorem block_round_trip {c : BlockCodec} (hc : c.Lawful) {path : Path} {data : Bytes}
    (hpath : (utf8 path).length ≤ maxPathLen) (hdata : data.length ≤ cacheBlockSize) :
    ∃ file, serializeV3Block c path data = some file ∧
      readBlockFile c .ok (some file) path = some (some data, some file) ∧
      ∀ p, p ≠ path → readBlockFile c .ok (some file) p = some (none, none) := by
  refine ⟨_, serializeV3Block_eq hc data hpath, ?_, ?_⟩
  · rw [readBlockFile_serialized hc path hpath hdata, if_pos rfl]
  · intro p hp
    rw [readBlockFile_serialized hc p hpath hdata, if_neg (Ne.symm hp)]

/-- One bit of the reflected CRC-32C division. -/
def crc32cBit (x : UInt32) : UInt32 :=
  if x &&& 1 = 1 then x >>> 1 ^^^ 0x82F63B78 else x >>> 1

/-- A checksum continued by some bytes. -/
def crc32cContinue (crc : UInt32) (data : Bytes) : UInt32 :=
  ~~~ data.foldl (fun x b ↦ crc32cBit^[8] (x ^^^ b.toUInt32)) (~~~ crc)

/-- The head of a literal run of LZ4: its token, and the bytes that continue a long length. -/
def literalHead (n : Nat) : Bytes :=
  if n < 15 then [.ofNat (16 * n)]
  else 0xF0 :: (List.replicate ((n - 15) / 255) 255 ++ [.ofNat ((n - 15) % 255)])

/-- What is left of a block behind the head of its literal run. -/
def afterLiteralHead : Bytes → Option Bytes
  | [] => none
  | token :: rest =>
    some (if token < 0xF0 then rest else (rest.dropWhile (· == 255)).drop 1)

theorem afterLiteralHead_append (data : Bytes) :
    afterLiteralHead (literalHead data.length ++ data) = some data := by
  unfold literalHead
  split
  · next hshort =>
    have htoken : UInt8.ofNat (16 * data.length) < 0xF0 := by
      exact (Nat.mod_le _ _).trans_lt (show 16 * data.length < 240 by omega)
    exact congrArg some (if_pos htoken)
  · have hlast : UInt8.ofNat ((data.length - 15) % 255) ≠ 255 := by
      intro h
      have hnat := congrArg UInt8.toNat h
      rw [UInt8.toNat_ofNat', Nat.mod_eq_of_lt (by omega)] at hnat
      exact absurd hnat (Nat.mod_lt _ (by decide)).ne
    simp [afterLiteralHead, hlast, List.dropWhile_append_of_pos, List.append_assoc]

/-- CRC-32C, and LZ4 blocks of one literal run, which is what short data are compressed to. -/
def BlockCodec.stored : BlockCodec where
  compressPrependSize data := leBytes 4 data.length ++ (literalHead data.length ++ data)
  decompressSizePrepended content := afterLiteralHead (content.drop 4)
  crc32c := crc32cContinue 0
  crc32cAppend := crc32cContinue

theorem BlockCodec.lawful_stored : BlockCodec.stored.Lawful where
  decompress_compress data := by simp [stored, afterLiteralHead_append]
  length_compress_le data := by
    simp only [stored, literalHead, List.length_append, length_leBytes]
    split <;> simp <;> omega
  crc32cAppend_crc32c a b := by simp [stored, crc32cContinue, List.foldl_append]

theorem block_round_trip_sample :
    ∃ file, serializeV3Block .stored ['a'] [1, 2, 3] = some file ∧
      readBlockFile .stored .ok (some file) ['a'] = some (some [1, 2, 3], some file) ∧
      ∀ p, p ≠ ['a'] → readBlockFile .stored .ok (some file) p = some (none, none) :=
  block_round_trip BlockCodec.lawful_stored (by decide) (by decide)

/-- The block files of the mount's state stand for serialised blocks: a lookup in the block cache
answers what reading the bytes answers. -/
theorem getBlock_eq_readBlockFile (hc : c.Lawful) {cfg : Config} {fs : MntrsFs} {block now : Nat}
    {f : BlockFile} (hio : cfg.directIo = false)
    (hblock : fs.disk.block (cfg.writeBufferPath path) block = some f)
    (hage : isCacheFileExpired cfg.cacheMaxAge now (some f.mtime) = false)
    (hpath : (utf8 f.path).length ≤ maxPathLen) (hdata : f.data.length ≤ cacheBlockSize) :
    (readBlockFile c .ok (serializeV3Block c f.path f.data) path).map Prod.fst =
      some (getBlock cfg fs path block now).1 := by
  rw [serializeV3Block_eq hc f.data hpath, readBlockFile_serialized hc path hpath hdata]
  simp only [getBlock, hio, hblock, hage, Bool.false_eq_true, if_false]
  split <;> rfl

/-- A lookup that finds the block of another path. -/
theorem getBlock_eq_readBlockFile_sample :
    (readBlockFile .stored .ok (serializeV3Block .stored ['b'] [7]) ['a']).map Prod.fst =
      some (getBlock (.plain .full) (.mounted (fun _ ↦ none)
        { Disk.empty with block := fun _ _ ↦ some ⟨['b'], [7], 0⟩ }) ['a'] 0 0).1 :=
  @getBlock_eq_readBlockFile _ _ BlockCodec.lawful_stored _ _ _ _ ⟨['b'], [7], 0⟩ rfl rfl rfl
    (by decide) (by decide)

/-! ### Torn files -/

theorem blockHeader_isPrefix {file : Bytes} (h : serializeV3Block c path data = some file) :
    blockHeader <+: file := by
  simp only [serializeV3Block] at h
  split at h <;> cases h
  exact ⟨_, by rw [List.append_assoc]⟩

theorem readBlockFile_of_short (c : BlockCodec) {t : Bytes} (p : Path)
    (h : t.length < blockHeaderSize) :
    readBlockFile c .ok (some t) p = some (some t, some t) := by
  have hsmall : t.length < cacheBlockSize := lt_trans h (by decide)
  have hgate : ¬ blockSizeGate < t.length := not_lt.mpr (le_trans hsmall.le (by decide))
  have hlegacy : readLegacy c t.length t = some (.hit t) := by
    rw [readLegacy, if_neg (by omega), if_neg (by omega), if_pos hsmall]
    rfl
  simp [readBlockFile, readBlockCached, HostRead.ok, hgate, not_le.mpr h, hlegacy, BlockRead.hit]

theorem readBlockFile_of_torn (c : BlockCodec) {t : Bytes} (p : Path) (hheader : blockHeader <+: t)
    (hcrc : blockOverhead ≤ t.length → ¬ EndsInCrc c t) :
    readBlockFile c .ok (some t) p = some (none, none) := by
  obtain ⟨rest, rfl⟩ := hheader
  by_cases hgate : (blockHeader ++ rest).length ≤ blockSizeGate
  · have hlen : blockHeaderSize ≤ (blockHeader ++ rest).length := by
      rw [List.length_append, length_blockHeader]
      omega
    have htorn : (blockHeader ++ rest).length < blockOverhead ∨
        ¬ EndsInCrc c (blockHeader ++ rest) := by
      by_cases hshort : (blockHeader ++ rest).length < blockOverhead
      · exact .inl hshort
      · exact .inr (hcrc (not_lt.mp hshort))
    rw [readBlockFile_of_magic c p hgate hlen rfl, readNewFormat_eq c p hlen, if_pos htorn]
    rfl
  · exact readBlockFile_of_oversize c p (not_le.mp hgate)

/-- **Torn files.** A part of a serialised block is rejected exactly when it reaches past the
header; shorter ones are taken for the last block of a file in the oldest format. -/
theorem torn_block_rejected_iff {c : BlockCodec} {path : Path} {data file t : Bytes} (p : Path)
    (hfile : serializeV3Block c path data = some file) (ht : t <+: file) (hne : t ≠ file)
    (hcrc : ∀ u, u <+: file → u ≠ file → 12 ≤ u.length → ¬ EndsInCrc c u) :
    (∃ left, readBlockFile c .ok (some t) p = some (none, left)) ↔ blockHeaderSize ≤ t.length := by
  constructor
  · rintro ⟨left, hread⟩
    by_contra hshort
    rw [readBlockFile_of_short c p (not_le.mp hshort)] at hread
    cases hread
  · intro hlen
    have hheader : blockHeader <+: t :=
      List.prefix_of_prefix_length_le (blockHeader_isPrefix hfile) ht
        (by rwa [length_blockHeader])
    exact ⟨none, readBlockFile_of_torn c p hheader (hcrc t ht hne)⟩

/-- The shortest block of the stored codec, without its last bytes, does not end in its own
checksum. -/
theorem stored_block_intact : ∀ n < 24, 12 ≤ n →
    ¬ EndsInCrc .stored
      ((sealBlock .stored (blockHeader ++ blockBody .stored ['a'] [1, 2, 3, 4])).take n) := by
  decide +kernel

/-- Every part of the block of `stored_block_intact` that is long enough to have a checksum has
the wrong one. -/
theorem not_endsInCrc_of_part {file u : Bytes}
    (hfile : serializeV3Block .stored ['a'] [1, 2, 3, 4] = some file) (hu : u <+: file)
    (hne : u ≠ file) (hlen : 12 ≤ u.length) : ¬ EndsInCrc .stored u := by
  rw [serializeV3Block_eq BlockCodec.lawful_stored _ (by decide)] at hfile
  cases hfile
  have hshort : u.length < 24 := by
    apply lt_of_le_of_ne hu.length_le
    intro heq
    exact hne (hu.eq_of_length heq)
  rw [List.prefix_iff_eq_take.mp hu]
  exact stored_block_intact u.length hshort hlen

/-- A file cut after its header is rejected. -/
theorem torn_block_rejected_iff_sample :
    ∃ file t, serializeV3Block .stored ['a'] [1, 2, 3, 4] = some file ∧ t <+: file ∧
      ∃ left, readBlockFile .stored .ok (some t) ['a'] = some (none, left) := by
  refine ⟨_, blockHeader, serializeV3Block_eq BlockCodec.lawful_stored _ (by decide),
    ⟨_, (List.append_assoc _ _ _).symm⟩, ?_⟩
  exact (torn_block_rejected_iff ['a']
    (serializeV3Block_eq BlockCodec.lawful_stored [1, 2, 3, 4] (by decide))
    ⟨_, (List.append_assoc _ _ _).symm⟩ (by decide)
    (fun u ↦ not_endsInCrc_of_part
      (serializeV3Block_eq BlockCodec.lawful_stored _ (by decide)))).mpr (by decide)

/-- The empty file a crash can leave of a block is served as an empty block. -/
theorem torn_block_served :
    ∃ file t, serializeV3Block .stored ['a'] [1, 2, 3, 4] = some file ∧ t <+: file ∧ t ≠ file ∧
      (∀ u, u <+: file → u ≠ file → 12 ≤ u.length → ¬ EndsInCrc .stored u) ∧
      readBlockFile .stored .ok (some t) ['a'] = some (some [], some []) := by
  have hfile := serializeV3Block_eq BlockCodec.lawful_stored [1, 2, 3, 4]
    (show (utf8 ['a']).length ≤ maxPathLen by decide)
  exact ⟨_, [], hfile, List.nil_prefix, by decide, fun u ↦ not_endsInCrc_of_part hfile,
    readBlockFile_of_short .stored ['a'] (by decide)⟩

/-! ### Every file -/

/-- The answer is at most a block long, and without an answer the file was removed. -/
structure BlockRead.Safe (r : BlockRead) : Prop where
  bounded : ∀ data, r.answer = some data → data.length ≤ cacheBlockSize
  removed : r.answer = none → r.removes = true

theorem BlockRead.safe_corrupt : BlockRead.corrupt.Safe := by
  constructor <;> simp [corrupt]

theorem BlockRead.safe_hit (h : data.length ≤ cacheBlockSize) : (BlockRead.hit data).Safe := by
  constructor <;> simp [hit, h]

theorem safe_decodeLz4Payload (c : BlockCodec) (content : Bytes) :
    (decodeLz4Payload c content).Safe := by
  unfold decodeLz4Payload
  split
  · split
    · next h => exact BlockRead.safe_hit h
    · exact BlockRead.safe_corrupt
  · exact BlockRead.safe_corrupt

theorem readLegacy_safe (c : BlockCodec) (data : Bytes) :
    ∃ r, readLegacy c data.length data = some r ∧ r.Safe := by
  unfold readLegacy
  by_cases hfull : data.length = cacheBlockSize + blockCrcTrailer
  · have hcontent : slice? data 0 cacheBlockSize = some (data.take cacheBlockSize) := by
      rw [slice?_of_le (Nat.zero_le _) (by omega), List.drop_zero]
    have htrailer : slice? data cacheBlockSize data.length = some (data.drop cacheBlockSize) := by
      rw [slice?_of_le (by omega) le_rfl, List.take_length]
    simp only [if_pos hfull, hcontent, htrailer, Option.bind_eq_bind, Option.bind_some]
    split
    · exact ⟨_, rfl, BlockRead.safe_corrupt⟩
    · split
      · exact ⟨_, rfl, BlockRead.safe_corrupt⟩
      · exact ⟨_, rfl, BlockRead.safe_hit (by simp)⟩
  · rw [if_neg hfull]
    split
    · next h => exact ⟨_, rfl, BlockRead.safe_hit h.le⟩
    · split
      · next h => exact ⟨_, rfl, BlockRead.safe_hit h.le⟩
      · exact ⟨_, rfl, BlockRead.safe_corrupt⟩

/-- An intact file of the first version whose content is longer than a block. -/
def OversizedV1 (c : BlockCodec) (data : Bytes) : Prop :=
  data.take 4 = blockMagic ∧ blockVersion data = legacyBlockFormatVersionV1 ∧ EndsInCrc c data ∧
    cacheBlockSize + blockOverhead < data.length ∧ data.length ≤ blockSizeGate

theorem length_blockContent (data : Bytes) :
    (blockContent data).length = data.length - blockOverhead := by
  simp only [blockContent, List.length_drop, List.length_take, blockCrcTrailer, blockHeaderSize,
    blockOverhead]
  omega

/-- Of the formats with header, only the first version serves its content as it is. -/
theorem readNewFormat_safe (c : BlockCodec) (p : Path) (hlen : blockHeaderSize ≤ data.length) :
    ∃ r, readNewFormat c data p = some r ∧
      (r.Safe ∨ blockVersion data = legacyBlockFormatVersionV1 ∧ EndsInCrc c data ∧
        cacheBlockSize + blockOverhead < data.length ∧ r = .hit (blockContent data)) := by
  rw [readNewFormat_eq c p hlen]
  split
  · exact ⟨_, rfl, .inl BlockRead.safe_corrupt⟩
  · next hintact =>
    rw [not_or, not_not] at hintact
    split
    · next hversion =>
      refine ⟨_, rfl, ?_⟩
      by_cases hbound : (blockContent data).length ≤ cacheBlockSize
      · exact .inl (BlockRead.safe_hit hbound)
      · rw [length_blockContent] at hbound
        exact .inr ⟨hversion, hintact.2, by omega, rfl⟩
    · split
      · exact ⟨_, rfl, .inl (safe_decodeLz4Payload c _)⟩
      · split
        · obtain hcorrupt | ⟨payload, hpayload⟩ := readV3Content_cases c (blockContent data) p
          · exact ⟨_, hcorrupt, .inl BlockRead.safe_corrupt⟩
          · exact ⟨_, hpayload, .inl (safe_decodeLz4Payload c payload)⟩
        · exact ⟨_, rfl, .inl BlockRead.safe_corrupt⟩

/-- A file of a readable size is read without a panic, and safely but for the first version. -/
theorem readBlockCached_safe (c : BlockCodec) (data : Bytes) (p : Path) :
    ∃ r, readBlockCached c (some data.length) (some data) p = some r ∧
      (r.Safe ∨ OversizedV1 c data ∧ r = .hit (blockContent data)) := by
  simp only [readBlockCached]
  split
  · exact ⟨_, rfl, .inl BlockRead.safe_corrupt⟩
  · next hgate =>
    obtain ⟨r, hlegacy, hsafe⟩ := readLegacy_safe c data
    split
    · next hlen =>
      have hslice : slice? data 0 4 = some (data.take 4) := by
        rw [slice?_of_le (by omega) (by simp only [blockHeaderSize] at hlen; omega),
          List.drop_zero]
      rw [hslice, Option.bind_eq_bind, Option.bind_some]
      split
      · next hmagic =>
        obtain ⟨r, hread, hr⟩ := readNewFormat_safe c p hlen
        refine ⟨r, hread, hr.imp_right ?_⟩
        rintro ⟨hversion, hcrc, hlong, rfl⟩
        exact ⟨⟨hmagic, hversion, hcrc, hlong, not_lt.mp hgate⟩, rfl⟩
      · exact ⟨r, hlegacy, .inl hsafe⟩
    · exact ⟨r, hlegacy, .inl hsafe⟩

theorem readBlockCached_of_oversizedV1 (p : Path) (h : OversizedV1 c data) :
    readBlockCached c (some data.length) (some data) p = some (.hit (blockContent data)) := by
  obtain ⟨hmagic, hversion, hcrc, hlong, hgate⟩ := h
  have hlen : blockHeaderSize ≤ data.length := by
    simp only [blockHeaderSize, blockOverhead] at *
    omega
  have hslice : slice? data 0 4 = some blockMagic := by
    rw [slice?_of_le (by omega) (by simp only [blockHeaderSize] at hlen; omega), List.drop_zero,
      hmagic]
  have hread : readNewFormat c data p = some (.hit (blockContent data)) := by
    rw [readNewFormat_eq c p hlen, if_neg (not_or.mpr ⟨by omega, not_not.mpr hcrc⟩),
      if_pos hversion]
  simp [readBlockCached, if_neg (not_lt.mpr hgate), if_pos hlen, hslice, hread]

theorem readBlockFile_of_unread (c : BlockCodec) {host : HostRead} (data : Bytes) (p : Path)
    (h : ¬ (host.metadata = true ∧ host.read = true)) :
    ∃ left, readBlockFile c host (some data) p = some (none, left) := by
  simp only [readBlockFile]
  cases hmeta : host.metadata with
  | false => exact ⟨_, rfl⟩
  | true =>
    have hbytes : host.read = false := by simpa [hmeta] using h
    rw [hbytes]
    simp only [readBlockCached, if_true, Option.map_some, Bool.false_eq_true, if_false]
    split <;> exact ⟨_, rfl⟩

/-- **Any file.** Whatever a block file holds, reading it does not panic, answers at most a block,
and removes a file it could read and has no answer from, exactly when the file is not an oversized
one of the first version. -/
theorem block_read_safe_iff (c : BlockCodec) (host : HostRead) (data : Bytes) (p : Path)
    (hremove : host.removeFile = true) :
    (∃ answer left, readBlockFile c host (some data) p = some (answer, left) ∧
      (∀ block, answer = some block → block.length ≤ cacheBlockSize) ∧
      (answer = none → host.metadata = true → host.read = true → left = none)) ↔
    ¬ (host.metadata = true ∧ host.read = true ∧ OversizedV1 c data) := by
  obtain ⟨r, hread, hr⟩ := readBlockCached_safe c data p
  by_cases hhost : host.metadata = true ∧ host.read = true
  · simp only [readBlockFile, hhost.1, hhost.2, if_true, Option.map_some, true_and]
    constructor
    · rintro ⟨answer, left, hanswer, hbound, -⟩ hv1
      rw [readBlockCached_of_oversizedV1 p hv1] at hanswer
      cases hanswer
      have hlong := hbound _ rfl
      rw [length_blockContent] at hlong
      have := hv1.2.2.2.1
      omega
    · intro hv1
      obtain hsafe | hv1' := hr
      · refine ⟨r.answer, if r.removes ∧ host.removeFile then none else some data, ?_,
          hsafe.bounded, ?_⟩
        · rw [hread]
          rfl
        · intro hnone _ _
          rw [if_pos ⟨hsafe.removed hnone, hremove⟩]
      · exact absurd hv1'.1 hv1
  · obtain ⟨left, hunread⟩ := readBlockFile_of_unread c data p hhost
    refine iff_of_true ⟨none, left, hunread, by simp, ?_⟩ (fun h ↦ hhost ⟨h.1, h.2.1⟩)
    intro _ hmeta hbytes
    exact absurd ⟨hmeta, hbytes⟩ hhost

theorem block_read_safe_iff_sample :
    ∃ answer left, readBlockFile .stored .ok (some [1, 2, 3]) ['a'] = some (answer, left) ∧
      (∀ block, answer = some block → block.length ≤ cacheBlockSize) ∧
      (answer = none → HostRead.ok.metadata = true → HostRead.ok.read = true → left = none) :=
  (block_read_safe_iff .stored .ok [1, 2, 3] ['a'] rfl).mpr
    (fun h ↦ absurd h.2.2.2.2.2.1 (by decide))

/-- A file as the first version wrote it. -/
def v1Block (c : BlockCodec) (content : Bytes) : Bytes :=
  sealBlock c (blockMagic ++ (leBytes 4 legacyBlockFormatVersionV1 ++ content))

/-- A file of the first version may hold more than a block: the slack of the size gate is meant
for compressed payloads. -/
theorem oversizedV1_v1Block (c : BlockCodec) {content : Bytes}
    (hlong : cacheBlockSize < content.length)
    (hgate : content.length ≤ cacheBlockSize + maxPayloadOverhead) :
    OversizedV1 c (v1Block c content) := by
  have hlen : (v1Block c content).length = content.length + blockOverhead := by
    simp only [v1Block, length_sealBlock, List.length_append, length_leBytes, blockMagic,
      List.length_cons, List.length_nil, blockOverhead]
    omega
  refine ⟨?_, ?_, endsInCrc_sealBlock c _, by omega, ?_⟩
  · rw [v1Block, sealBlock, List.append_assoc]
    exact List.take_left' rfl
  · rfl
  · simp only [blockSizeGate]
    omega

/-- A file of the first version with one byte more than a block is served whole. -/
theorem oversized_block_served :
    ∃ data block, readBlockFile .stored .ok (some data) ['a'] = some (some block, some data) ∧
      cacheBlockSize < block.length := by
  obtain ⟨content, hlen⟩ : ∃ content : Bytes, content.length = cacheBlockSize + 1 :=
    ⟨List.replicate _ 0, List.length_replicate⟩
  have hv1 : OversizedV1 .stored (v1Block .stored content) :=
    oversizedV1_v1Block .stored (by omega)
      (hlen ▸ Nat.add_le_add_left (by decide) cacheBlockSize)
  refine ⟨v1Block .stored content, blockContent (v1Block .stored content), ?_, ?_⟩
  · simp only [readBlockFile, HostRead.ok, if_true, Option.map_some,
      readBlockCached_of_oversizedV1 ['a'] hv1]
    rfl
  · rw [length_blockContent]
    have := hv1.2.2.2.1
    omega

end Mntrs

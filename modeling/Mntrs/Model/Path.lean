import Mathlib.Data.List.Basic

/-!
# Paths, cache file names and path spellings

Paths are sequences of Unicode scalar values; the host sees their UTF-8 bytes. Models
`src/src/util.rs:166-224` (`path_hash`, the names of the cache files), `299-308`
(`canonicalize_list_path`) and the path spellings the handlers compute from them.
-/

namespace Mntrs

/-- File contents and payloads. -/
abbrev Bytes := List UInt8

/-- A path of the mount, and the key of the object it names on the backend. -/
abbrev Path := List Char

instance : LawfulBEq Path := inferInstance

/-- The stem of a cache file name: `write_buffer_path` is its hexadecimal spelling, and the
`.dirty`, `.meta` and `.block` files are named after it. -/
abbrev CacheName := UInt64

/-- The UTF-8 bytes of a path. -/
def utf8 (p : Path) : Bytes := p.flatMap String.utf8EncodeChar

/-- `std::str::from_utf8`. -/
def fromUtf8 (bytes : Bytes) : Option Path := bytes.toByteArray.utf8Decode?.map Array.toList

theorem fromUtf8_utf8 (p : Path) : fromUtf8 (utf8 p) = some p := by
  have hdecode : (utf8 p).toByteArray.utf8Decode? = some p.toArray := List.utf8Decode?_utf8Encode
  rw [fromUtf8, hdecode]
  simp

theorem utf8_cons (c : Char) (p : Path) : utf8 (c :: p) = String.utf8EncodeChar c ++ utf8 p :=
  List.flatMap_cons

theorem utf8Size_eq_one_iff (c : Char) : c.utf8Size = 1 ↔ c.toNat < 128 := by
  rw [Char.utf8Size_eq_one_iff]
  exact Nat.lt_succ_iff.symm

theorem toNat_toUInt8 {c : Char} (h : c.toNat < 128) : c.toUInt8.toNat = c.toNat := by
  show c.val.toUInt8.toNat = c.val.toNat
  exact Nat.mod_eq_of_lt (Nat.lt_trans h (by decide))

theorem length_le_length_utf8 (p : Path) : p.length ≤ (utf8 p).length := by
  induction p with
  | nil => simp
  | cons c p ih =>
    have hpos := c.utf8Size_pos
    rw [utf8_cons, List.length_append, String.length_utf8EncodeChar, List.length_cons]
    omega

/-- A path of as many bytes as characters is ASCII. -/
theorem utf8Size_of_length_utf8 {p : Path} (h : (utf8 p).length = p.length) :
    ∀ c ∈ p, c.utf8Size = 1 := by
  induction p with
  | nil => simp
  | cons c p ih =>
    have hpos := c.utf8Size_pos
    have hrest := length_le_length_utf8 p
    rw [utf8_cons, List.length_append, String.length_utf8EncodeChar, List.length_cons] at h
    rw [List.forall_mem_cons]
    exact ⟨by omega, ih (by omega)⟩

/-- `path_hash`, `src/src/util.rs:166-224`: a salted multiplicative hash cut to 63 bits and
kept above the two reserved inode numbers. -/
def pathHash (salt : UInt64) (p : Path) : UInt64 :=
  let h := (utf8 p).foldl (fun h b ↦ h * 0x01000193 ^^^ b.toUInt64) (0x811c9dc5 ^^^ salt)
  max (h &&& 0x7FFFFFFFFFFFFFFF) 2

/-- The non-empty segments of a path. -/
def segments (p : Path) : List Path := (p.splitOn '/').filter (fun s ↦ !s.isEmpty)

/-- `canonicalize_list_path`, `src/src/util.rs:299-308`: one slash between segments and one
at the end; the root is empty. -/
def canonicalizeListPath (p : Path) : Path :=
  match segments p with
  | [] => []
  | segs => List.intercalate ['/'] segs ++ ['/']

/-- The segments `std::path::Path::components` keeps: a `.` counts only at the start of a
relative path. -/
def components (p : Path) : List Path :=
  match segments p with
  | [] => []
  | s :: rest =>
    let rest := rest.filter (· ≠ ['.'])
    if s = ['.'] ∧ p.head? = some '/' then rest else s :: rest

/-- `std::path::Path::parent`, up to the spelling of its separators. -/
def parentPath (p : Path) : Option Path :=
  match components p with
  | [] => none
  | segs =>
    let up := List.intercalate ['/'] segs.dropLast
    some (if p.head? = some '/' then '/' :: up else up)

/-- `std::path::Path::file_name`. -/
def fileName (p : Path) : Option Path := (components p).getLast?

/-- The characters `str::trim` removes: the Unicode `White_Space` property. -/
def isWhiteSpace (c : Char) : Bool :=
  let n := c.toNat
  (0x09 ≤ n && n ≤ 0x0D) || n == 0x20 || n == 0x85 || n == 0xA0 || n == 0x1680 ||
    (0x2000 ≤ n && n ≤ 0x200A) || n == 0x2028 || n == 0x2029 || n == 0x202F || n == 0x205F ||
    n == 0x3000

/-- `str::trim`. -/
def trim (p : Path) : Path := ((p.dropWhile isWhiteSpace).reverse.dropWhile isWhiteSpace).reverse

end Mntrs

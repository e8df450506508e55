import Mntrs.Base.Json
import Mntrs.Log.Calendar
import Mntrs.Model.Path

/-!
# Lines of the error log

Models `ErrorRecord::to_json_line` (`src/src/error_log.rs:40-66`), `rfc3339_utc_now` (`83-99`),
`json_escape_into` (`133-154`), `errno_name` (`247-278`) and the record of `log_fuse_error`
(`300-312`). The operation and the name of the error are texts of the program and are not escaped;
keys and values of fields may be any text.
-/

namespace Mntrs

open Base

/-- A round of `json_escape_into`. -/
def jsonEscapeChar : Char → Path
  | '"' => "\\\"".toList
  | '\\' => "\\\\".toList
  | '\n' => "\\n".toList
  | '\r' => "\\r".toList
  | '\t' => "\\t".toList
  | '\x08' => "\\b".toList
  | '\x0c' => "\\f".toList
  | c => if c.toNat < 0x20 then "\\u".toList ++ padded 16 4 c.toNat else [c]

/-- What `json_escape_into` appends. -/
def jsonEscape (s : Path) : Path := s.flatMap jsonEscapeChar

/-- A `&'static str` of the program: it holds nothing that an escape would change. -/
structure StaticText where
  text : Path
  plain : jsonEscape text = text

structure ErrorRecord where
  operation : StaticText
  errno : Int
  errnoName : StaticText
  fields : List (Path × Path)

/-- A number in a width, as `format!` fills it up: the sign comes before the zeros. -/
def paddedInt (width : Nat) (n : Int) : Path :=
  if n < 0 then '-' :: padded 10 (width - 1) n.natAbs else padded 10 width n.natAbs

/-- `rfc3339_utc_now`, from the seconds and milliseconds since 1970; a clock before that gives no
duration. -/
def rfc3339UtcNow (sinceEpoch : Option (UInt64 × Nat)) : Path :=
  let d := sinceEpoch.getD (0, 0)
  let days : Int := (d.1.toNat / 86400 : Nat)
  let sod := d.1.toNat % 86400
  let date := civilFromDays days
  paddedInt 4 date.1 ++ '-' :: padded 10 2 date.2.1 ++ '-' :: padded 10 2 date.2.2 ++
    'T' :: padded 10 2 (sod / 3600) ++ ':' :: padded 10 2 (sod / 60 % 60) ++
    ':' :: padded 10 2 (sod % 60) ++ '.' :: padded 10 3 d.2 ++ ['Z']

/-- `ErrorRecord::to_json_line`. -/
def ErrorRecord.toJsonLine (r : ErrorRecord) (sinceEpoch : Option (UInt64 × Nat)) : Path :=
  "\x7b\"version\":1,\"operation\":\"".toList ++ r.operation.text ++
    "\",\"errno\":".toList ++ renderInt r.errno ++
    ",\"errno_name\":\"".toList ++ r.errnoName.text ++
    "\",\"timestamp\":\"".toList ++ rfc3339UtcNow sinceEpoch ++ "\"".toList ++
    r.fields.flatMap (fun f ↦
      ",\"".toList ++ jsonEscape f.1 ++ "\":\"".toList ++ jsonEscape f.2 ++ "\"".toList) ++
    "\x7d\n".toList

/-- `errno_name`. -/
def errnoName (raw : Int) : Path :=
  let name := match raw with
    | 1 => "EPERM"
    | 2 => "ENOENT"
    | 5 => "EIO"
    | 9 => "EBADF"
    | 11 => "EAGAIN"
    | 12 => "ENOMEM"
    | 13 => "EACCES"
    | 14 => "EFAULT"
    | 16 => "EBUSY"
    | 17 => "EEXIST"
    | 18 => "EXDEV"
    | 19 => "ENODEV"
    | 20 => "ENOTDIR"
    | 21 => "EISDIR"
    | 22 => "EINVAL"
    | 23 => "ENFILE"
    | 24 => "EMFILE"
    | 27 => "EFBIG"
    | 28 => "ENOSPC"
    | 30 => "EROFS"
    | 32 => "EPIPE"
    | 36 => "ENAMETOOLONG"
    | 38 => "ENOSYS"
    | 39 => "ENOTEMPTY"
    | 40 => "ELOOP"
    | 122 => "EDQUOT"
    | _ => "UNKNOWN"
  name.toList

theorem jsonEscape_errnoName (raw : Int) : jsonEscape (errnoName raw) = errnoName raw := by
  unfold errnoName
  split <;> decide +kernel

/-- The record of `log_fuse_error`. -/
def fuseErrorRecord (op : StaticText) (rawOsError : Option Int) (fields : List (Path × Path)) :
    ErrorRecord :=
  let raw := rawOsError.getD 0
  ⟨op, raw, ⟨errnoName raw, jsonEscape_errnoName raw⟩, fields⟩

/-! ## The escapes are those of JSON -/

/-- A character from the space on that is neither a quote nor a backslash stands for itself. -/
theorem jsonEscapeChar_eq {c : Char} (hquote : c ≠ '"') (hslash : c ≠ '\\')
    (hspace : ¬c.toNat < 0x20) : jsonEscapeChar c = [c] := by
  unfold jsonEscapeChar
  split <;> simp_all

theorem escapes_jsonEscapeChar : Escapes jsonEscapeChar := by
  intro c rest
  unfold jsonEscapeChar
  split
  case h_8 hquote hslash _ _ _ _ _ =>
    split
    · next hcontrol =>
      have hread := readChar_hex (show c.toNat < 0xD800 by omega) rest
      rwa [Char.ofNat_toNat] at hread
    · next hspace =>
      rw [List.singleton_append, readChar]
      · have hplain : ¬(c = '"' ∨ c = '\\' ∨ c.toNat < 0x20) := by
          rintro (h | h | h)
          · exact hquote h
          · exact hslash h
          · exact hspace h
        rw [if_neg hplain]
      · intro _ _ _ _ _ h
        exact absurd h hslash
      · intro _ _ h
        exact absurd h hslash
  all_goals rfl

theorem newline_notMem_jsonEscapeChar (c : Char) : '\n' ∉ jsonEscapeChar c := by
  have hdigits : '\n' ∉ padded 16 4 c.toNat := by
    intro hmem
    exact readDigit_of_mem_padded (by decide) (by decide) 4 hmem rfl
  unfold jsonEscapeChar
  split
  all_goals try decide
  split
  · simp [hdigits]
  · next hspace =>
    intro hmem
    rw [← List.mem_singleton.mp hmem] at hspace
    exact hspace (by decide)

/-! ## The line is an object -/

theorem jsonEscape_append (s t : Path) : jsonEscape (s ++ t) = jsonEscape s ++ jsonEscape t :=
  List.flatMap_append

private theorem jsonEscapeChar_digit {c : Char} (h : readDigit 10 c ≠ none) :
    jsonEscapeChar c = [c] := by
  apply jsonEscapeChar_eq
  · rintro rfl
    exact h rfl
  · rintro rfl
    exact h rfl
  · intro hcontrol
    apply h
    have hcode : ∀ k < 0x20, readDigit 10 (Char.ofNat k) = none := by decide
    have hnone := hcode c.toNat hcontrol
    rwa [Char.ofNat_toNat] at hnone

theorem jsonEscape_padded (width n : Nat) : jsonEscape (padded 10 width n) = padded 10 width n := by
  have hdigits : ∀ c ∈ padded 10 width n, jsonEscapeChar c = [c] := fun c hc ↦
    jsonEscapeChar_digit (readDigit_of_mem_padded (by decide) (by decide) width hc)
  rw [jsonEscape, List.flatMap_congr hdigits, List.flatMap_singleton']

theorem jsonEscape_rfc3339UtcNow (sinceEpoch : Option (UInt64 × Nat)) :
    jsonEscape (rfc3339UtcNow sinceEpoch) = rfc3339UtcNow sinceEpoch := by
  have hcons : ∀ c ∈ "-T:.Z".toList, ∀ s, jsonEscape (c :: s) = c :: jsonEscape s := by
    simp [jsonEscape, jsonEscapeChar]
  have hyear : ∀ n, jsonEscape (paddedInt 4 n) = paddedInt 4 n := by
    intro n
    unfold paddedInt
    split
    · rw [hcons '-' (by decide), jsonEscape_padded]
    · exact jsonEscape_padded 4 n.natAbs
  simp only [rfc3339UtcNow, jsonEscape_append, hyear, jsonEscape_padded, hcons '-' (by decide),
    hcons 'T' (by decide), hcons ':' (by decide), hcons '.' (by decide), hcons 'Z' (by decide)]
  rfl

/-- The members of the object of a record. -/
def ErrorRecord.members (r : ErrorRecord) (timestamp : Path) : List (Path × JsonValue) :=
  ("version".toList, .number 1) :: ("operation".toList, .string r.operation.text) ::
    ("errno".toList, .number r.errno) :: ("errno_name".toList, .string r.errnoName.text) ::
    ("timestamp".toList, .string timestamp) :: r.fields.map (fun f ↦ (f.1, .string f.2))

private theorem renderMember_plain {key value : Path} (hkey : jsonEscape key = key)
    (hvalue : jsonEscape value = value) :
    renderMember jsonEscapeChar (key, .string value) =
      '"' :: (key ++ "\":\"".toList ++ value ++ ['"']) := by
  have hstring : ∀ s, renderString jsonEscapeChar s = '"' :: jsonEscape s ++ ['"'] := fun _ ↦ rfl
  rw [renderMember, renderValue, hstring, hstring, hkey, hvalue]
  simp

private theorem renderFields (fields : List (Path × Path)) :
    fields.flatMap (fun f ↦ ",\"".toList ++ jsonEscape f.1 ++ "\":\"".toList ++ jsonEscape f.2 ++
      "\"".toList) =
      (fields.map (fun f ↦ (f.1, JsonValue.string f.2))).flatMap
        (fun member ↦ ',' :: renderMember jsonEscapeChar member) := by
  rw [List.flatMap_map]
  apply List.flatMap_congr
  intro f _
  simp [renderMember, renderValue, renderString, jsonEscape]

theorem renderObject_cons (member : Path × JsonValue) (members : List (Path × JsonValue)) :
    renderObject jsonEscapeChar (member :: members) =
      '{' :: (renderMember jsonEscapeChar member ++
        members.flatMap (fun member ↦ ',' :: renderMember jsonEscapeChar member)) ++ ['}'] := by
  rw [renderObject, List.map_cons, spell_cons, List.flatMap_map]

theorem ErrorRecord.toJsonLine_eq (r : ErrorRecord) (sinceEpoch : Option (UInt64 × Nat)) :
    r.toJsonLine sinceEpoch =
      renderObject jsonEscapeChar (r.members (rfc3339UtcNow sinceEpoch)) ++ ['\n'] := by
  have hversion : renderMember jsonEscapeChar ("version".toList, .number 1) =
      "\"version\":1".toList := rfl
  have herrno : renderMember jsonEscapeChar ("errno".toList, .number r.errno) =
      "\"errno\":".toList ++ renderInt r.errno := rfl
  have hoperation :
      renderMember jsonEscapeChar ("operation".toList, .string r.operation.text) = _ :=
    renderMember_plain rfl r.operation.plain
  have hname :
      renderMember jsonEscapeChar ("errno_name".toList, .string r.errnoName.text) = _ :=
    renderMember_plain rfl r.errnoName.plain
  have htimestamp := @renderMember_plain "timestamp".toList _ rfl
    (jsonEscape_rfc3339UtcNow sinceEpoch)
  have hmembers : renderObject jsonEscapeChar (r.members (rfc3339UtcNow sinceEpoch)) = _ :=
    renderObject_cons _ _
  -- the texts between the values, cut where the members begin
  have hfirst : "\x7b\"version\":1,\"operation\":\"".toList =
      '{' :: ("\"version\":1".toList ++ ',' :: '"' :: ("operation".toList ++ "\":\"".toList)) := rfl
  have hsecond : "\",\"errno\":".toList = '"' :: ',' :: "\"errno\":".toList := rfl
  have hthird : ",\"errno_name\":\"".toList =
      ',' :: '"' :: ("errno_name".toList ++ "\":\"".toList) := rfl
  have hfourth : "\",\"timestamp\":\"".toList =
      '"' :: ',' :: '"' :: ("timestamp".toList ++ "\":\"".toList) := rfl
  have hquote : "\"".toList = ['"'] := rfl
  have hlast : "\x7d\n".toList = ['}', '\n'] := rfl
  delta ErrorRecord.toJsonLine
  simp only [hmembers, List.flatMap_cons, ← renderFields, hversion, hoperation, herrno, hname,
    htimestamp, hfirst, hsecond, hthird, hfourth, hquote, hlast, List.append_assoc,
    List.cons_append, List.nil_append]

/-- A record is one line, and the line is an object of the record's members: no key or value ends
a string early. -/
theorem toJsonLine_decodes (r : ErrorRecord) (sinceEpoch : Option (UInt64 × Nat)) :
    ∃ body, r.toJsonLine sinceEpoch = body ++ ['\n'] ∧ '\n' ∉ body ∧
      decodeObject body = some (r.members (rfc3339UtcNow sinceEpoch)) :=
  ⟨renderObject jsonEscapeChar (r.members (rfc3339UtcNow sinceEpoch)), r.toJsonLine_eq sinceEpoch,
    newline_notMem_renderObject newline_notMem_jsonEscapeChar _,
    decodeObject_renderObject escapes_jsonEscapeChar _⟩

end Mntrs

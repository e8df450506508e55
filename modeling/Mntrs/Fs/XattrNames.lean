import Mathlib.Data.Char
import Mathlib.Data.List.Lex
import Mathlib.Data.List.Sort
import Mntrs.Base.Machine
import Mntrs.Fs.Xattr

/-!
# Reading extended attributes

Models `xattr_value_for`, `xattr_names_for` and `strip_etag_quotes` (`src/src/lib.rs:8818-8932`).
The list has the keys of the user metadata as they are stored, next to four names derived from
the other fields. A value is looked up under the normalised key, after the derived names. The two
agree on the keys that are their own normal form and not the key of a derived name.
-/

namespace Mntrs

open Base

variable {cfg : Config}

/-- `opendal::Metadata`, as far as attributes show it; `lastModified` is the text of the
timestamp. -/
structure ObjectMeta where
  etag : Option Path
  contentType : Option Path
  lastModified : Option Path
  contentLength : Nat
  userMetadata : Option UserMeta

/-- The user metadata, empty without any. -/
def ObjectMeta.map (m : ObjectMeta) : UserMeta := m.userMetadata.getD ∅

/-- `strip_etag_quotes`. -/
def stripEtagQuotes (s : Path) : Path :=
  if 2 ≤ s.length ∧ s.head? = some '"' ∧ s.getLast? = some '"' then s.tail.dropLast else s

/-- The text of a field, if the record has it. -/
def xattrField (field : Option Path) (missing : String) : Except IoError Bytes :=
  match field with
  | some text => .ok (utf8 text)
  | none => .error ⟨.notFound, missing, none⟩

/-- The user metadata under a normalised key. -/
def userMetaValue (m : ObjectMeta) (normalized : Path) : Except IoError Bytes :=
  match m.userMetadata with
  | some map =>
    match map.lookup normalized with
    | some v => .ok v
    | none =>
      .error ⟨.notFound, "user." ++ String.ofList normalized ++ " not in user metadata", none⟩
  | none => .error ⟨.notFound, "no user metadata", none⟩

/-- `xattr_value_for`. -/
def xattrValueFor (cfg : Config) (m : ObjectMeta) (name : Path) : Except IoError Bytes :=
  if name = "user.etag".toList ∨ name = "s3.etag".toList then
    xattrField (m.etag.map stripEtagQuotes) "no etag"
  else if name = "user.mime_type".toList ∨ name = "user.content-type".toList ∨
      name = "s3.content-type".toList then
    xattrField m.contentType "no content_type"
  else if name = "user.mtime".toList then xattrField m.lastModified "no mtime"
  else if name = "user.content_length".toList then .ok (utf8 (toString m.contentLength).toList)
  else if "user.".toList.isPrefixOf name then
    userMetaValue m (normalizeUserMetaKey cfg (name.drop 5))
  else .error ⟨.notFound, "xattr not found", none⟩

/-- The name of a key. -/
def userXattr (key : Path) : Path := "user.".toList ++ key

/-- The keys of the derived names. -/
def derivedKeys : List Path := ["etag", "mime_type", "mtime", "content_length"].map String.toList

/-- The field behind a derived name. -/
def ObjectMeta.field (m : ObjectMeta) (key : Path) : Option Path :=
  if key = "etag".toList then m.etag.map stripEtagQuotes
  else if key = "mime_type".toList then m.contentType
  else if key = "mtime".toList then m.lastModified
  else some (toString m.contentLength).toList

/-- The keys of the derived names a record has. -/
def ObjectMeta.derived (m : ObjectMeta) : List Path :=
  derivedKeys.filter (fun key ↦ (m.field key).isSome)

/-- `xattr_names_for`: the order of code points is that of the bytes. -/
def xattrNamesFor (m : ObjectMeta) : List Path :=
  ((m.derived ++ m.map.keys).map userXattr).insertionSort (· ≤ ·)

/-! ### What is listed and what is found -/

/-- The list has no duplicates, every name in it has a value, and the names of the user metadata
have theirs. -/
structure XattrsAgree (cfg : Config) (m : ObjectMeta) : Prop where
  nodup : (xattrNamesFor m).Nodup
  found : ∀ name ∈ xattrNamesFor m, ∃ value, xattrValueFor cfg m name = .ok value
  stored : ∀ key value, m.map.lookup key = some value →
    xattrValueFor cfg m (userXattr key) = .ok value

/-- No stored key is one of a derived name. What the key `content-type` holds is the content type,
and what any other key holds its normal form holds. -/
def KeysReadable (cfg : Config) (m : ObjectMeta) : Prop :=
  ∀ key value, m.map.lookup key = some value → key ∉ derivedKeys ∧
    if key = "content-type".toList then m.contentType.map utf8 = some value
    else m.map.lookup (normalizeUserMetaKey cfg key) = some value

variable {m : ObjectMeta}

theorem userXattr_inj {a b : Path} : userXattr a = userXattr b ↔ a = b := List.append_right_inj _

variable {key : Path} {metadata : Bool} {fs : MntrsFs} {ino : Ino} {m' : ObjectMeta}
  {ls : List (XattrOp × PutMeta)}

/-- A derived name reports its field. -/
theorem xattrValueFor_derived (cfg : Config) (h : key ∈ derivedKeys) :
    ∃ missing, ∀ m, xattrValueFor cfg m (userXattr key) = xattrField (m.field key) missing := by
  simp only [derivedKeys, List.map_cons, List.map_nil, List.mem_cons, List.not_mem_nil,
    or_false] at h
  rcases h with rfl | rfl | rfl | rfl
  · exact ⟨"no etag", fun _ ↦ rfl⟩
  · exact ⟨"no content_type", fun _ ↦ rfl⟩
  · exact ⟨"no mtime", fun _ ↦ rfl⟩
  · exact ⟨"", fun _ ↦ rfl⟩

/-- A name that is not well known is looked up in the user metadata. -/
theorem xattrValueFor_of_not_wellKnown {name : Path} (h : isWellKnownXattr name = false)
    (huser : "user.".toList.isPrefixOf name) :
    xattrValueFor cfg m name = userMetaValue m (normalizeUserMetaKey cfg (name.drop 5)) := by
  simp only [isWellKnownXattr, wellKnownXattrs, List.map_cons, List.map_nil, List.mem_cons,
    List.not_mem_nil, or_false, decide_eq_false_iff_not, not_or] at h
  obtain ⟨hetag, hmime, htype, hmtime, hlength, hs3, hs3type⟩ := h
  unfold xattrValueFor
  rw [if_neg (not_or.mpr ⟨hetag, hs3⟩), if_neg (not_or.mpr ⟨hmime, not_or.mpr ⟨htype, hs3type⟩⟩),
    if_neg hmtime, if_neg hlength, if_pos huser]

private theorem isWellKnownXattr_userXattr (h : key ∉ derivedKeys)
    (htype : key ≠ "content-type".toList) : isWellKnownXattr (userXattr key) = false := by
  have hall : ∀ name ∈ wellKnownXattrs,
      name ∈ ("content-type".toList :: derivedKeys).map userXattr ∨ name.head? = some 's' := by
    decide
  refine decide_eq_false (fun hmem ↦ ?_)
  rcases hall _ hmem with huser | hs3
  · obtain ⟨k, hk, heq⟩ := List.mem_map.mp huser
    obtain rfl := userXattr_inj.mp heq
    exact (List.mem_cons.mp hk).elim htype h
  · cases hs3

private theorem xattrValueFor_other (h : key ∉ derivedKeys) (htype : key ≠ "content-type".toList) :
    xattrValueFor cfg m (userXattr key) = userMetaValue m (normalizeUserMetaKey cfg key) :=
  xattrValueFor_of_not_wellKnown (isWellKnownXattr_userXattr h htype)
    (List.isPrefixOf_iff_prefix.mpr (List.prefix_append _ _))

private theorem userMetaValue_eq_ok_iff {value : Bytes} :
    userMetaValue m key = .ok value ↔ m.map.lookup key = some value := by
  unfold userMetaValue ObjectMeta.map
  cases m.userMetadata with
  | none => simp
  | some map => cases hlookup : map.lookup key <;> simp [hlookup]

private theorem xattrField_eq_ok_iff {field : Option Path} {missing : String} {value : Bytes} :
    xattrField field missing = .ok value ↔ field.map utf8 = some value := by
  cases field <;> simp [xattrField]

private theorem nodup_xattrNamesFor_iff :
    (xattrNamesFor m).Nodup ↔ ∀ key ∈ m.derived, key ∉ m.map.keys := by
  have hderived : m.derived.Nodup := List.Nodup.filter _ (by decide)
  have hinj : Function.Injective userXattr := fun _ _ ↦ userXattr_inj.mp
  rw [xattrNamesFor, (List.perm_insertionSort _ _).nodup_iff, List.nodup_map_iff hinj,
    List.nodup_append]
  simp only [hderived, AList.keys_nodup m.map, true_and]
  exact ⟨fun h key hd hk ↦ h key hd key hk rfl, fun h a ha b hb hab ↦ h a ha (hab ▸ hb)⟩

private theorem mem_xattrNamesFor {name : Path} :
    name ∈ xattrNamesFor m ↔
      ∃ key, (key ∈ m.derived ∨ key ∈ m.map.keys) ∧ userXattr key = name := by
  rw [xattrNamesFor, List.mem_insertionSort, List.mem_map]
  simp

/-- The list and the values agree exactly on the records whose keys can be read. -/
theorem xattrs_agree_iff (cfg : Config) (m : ObjectMeta) :
    XattrsAgree cfg m ↔ KeysReadable cfg m := by
  constructor
  · intro h key value hlookup
    have hstored := h.stored key value hlookup
    have hnot : key ∉ derivedKeys := by
      intro hderived
      obtain ⟨missing, hvalue⟩ := xattrValueFor_derived cfg hderived
      rw [hvalue, xattrField_eq_ok_iff] at hstored
      obtain ⟨text, htext, -⟩ := Option.map_eq_some_iff.mp hstored
      have hmem : key ∈ m.derived :=
        List.mem_filter.mpr ⟨hderived, by rw [htext]; rfl⟩
      exact nodup_xattrNamesFor_iff.mp h.nodup key hmem
        (AList.lookup_isSome.mp (Option.isSome_of_eq_some hlookup))
    refine ⟨hnot, ?_⟩
    split
    · next htype =>
      subst htype
      exact xattrField_eq_ok_iff.mp hstored
    · next htype =>
      rw [xattrValueFor_other hnot htype] at hstored
      exact userMetaValue_eq_ok_iff.mp hstored
  · intro h
    have hstored : ∀ key value, m.map.lookup key = some value →
        xattrValueFor cfg m (userXattr key) = .ok value := by
      intro key value hlookup
      obtain ⟨hnot, hread⟩ := h key value hlookup
      split at hread
      · next htype =>
        subst htype
        exact xattrField_eq_ok_iff.mpr hread
      · next htype =>
        rw [xattrValueFor_other hnot htype]
        exact userMetaValue_eq_ok_iff.mpr hread
    refine ⟨nodup_xattrNamesFor_iff.mpr ?_, ?_, hstored⟩
    · intro key hderived hkey
      obtain ⟨value, hlookup⟩ := Option.isSome_iff_exists.mp (AList.lookup_isSome.mpr hkey)
      exact (h key value hlookup).1 (List.mem_filter.mp hderived).1
    · intro name hname
      obtain ⟨key, hderived | hkey, rfl⟩ := mem_xattrNamesFor.mp hname
      · obtain ⟨hmem, hsome⟩ := List.mem_filter.mp hderived
        obtain ⟨text, htext⟩ := Option.isSome_iff_exists.mp hsome
        obtain ⟨missing, hvalue⟩ := xattrValueFor_derived cfg hmem
        exact ⟨utf8 text, by rw [hvalue, htext]; rfl⟩
      · obtain ⟨value, hlookup⟩ := Option.isSome_iff_exists.mp (AList.lookup_isSome.mpr hkey)
        exact ⟨value, hstored key value hlookup⟩

/-- A key in upper case is listed and not found. -/
theorem listed_xattr_not_found :
    ¬XattrsAgree (Config.plain .full)
      ⟨none, none, none, 0, some ((∅ : UserMeta).insert ['A'] [1])⟩ := by
  intro h
  have hget := h.stored ['A'] [1] rfl
  revert hget
  decide

/-! ### Histories of one object -/

/-- A call that sets an attribute, or removes one. -/
inductive XattrOp where
  | set (name : Path) (value : Bytes)
  | remove (name : Path)

/-- The name a call is about. -/
def XattrOp.name : XattrOp → Path
  | .set name _ | .remove name => name

/-- What a call leaves under its key. -/
def XattrOp.value : XattrOp → Option Bytes
  | .set _ value => some value
  | .remove _ => none

/-- What the backend records of a put beside the user metadata. -/
structure PutMeta where
  etag : Option Path
  contentType : Option Path
  lastModified : Option Path

/-- The record after a put of the same bytes. -/
def ObjectMeta.rewritten (m : ObjectMeta) (p : PutMeta) : ObjectMeta :=
  { m with etag := p.etag, contentType := p.contentType, lastModified := p.lastModified }

/-- The checks of a call. -/
def XattrOp.begin (cfg : Config) (metadata : Bool) (fs : MntrsFs) (ino : Ino) :
    XattrOp → Except IoError XattrCall
  | .set name value => setxattr cfg metadata fs ino name value
  | .remove name => removexattr cfg metadata fs ino name

/-- The value of the latest call on each key. -/
def latest (cfg : Config) (start : Path → Option Bytes) : List (XattrOp × PutMeta) →
    Path → Option Bytes
  | [] => start
  | l :: ls =>
    match parseUserXattrKey cfg l.1.name with
    | some key => latest cfg (Function.update start key l.1.value) ls
    | none => latest cfg start ls

/-- The record with what the backend recorded last. -/
def ObjectMeta.after (m : ObjectMeta) (ls : List (XattrOp × PutMeta)) : ObjectMeta :=
  ls.foldl (fun m l ↦ m.rewritten l.2) m

end Mntrs

import Mntrs.Model.State

/-!
# Extended attributes

`setxattr` and `removexattr` (`src/src/lib.rs:7987-8238`) and the names they accept
(`src/src/xattr_bridge.rs`). An attribute is an entry of the object's user metadata, and the
backend has no way to change the metadata alone: a call asks for the metadata the object has,
reads the whole object, and writes the bytes back with the changed map. The three requests to the
backend are steps of their own, so that others can come between them.
-/

namespace Mntrs

open Base

/-- The user metadata of an object. -/
abbrev UserMeta := Table Path Bytes

/-- `WELL_KNOWN_XATTRS`, `src/src/xattr_bridge.rs:34-42`. -/
def wellKnownXattrs : List Path :=
  ["user.etag", "user.mime_type", "user.content-type", "user.mtime", "user.content_length",
    "s3.etag", "s3.content-type"].map String.toList

/-- `is_well_known_xattr`. -/
def isWellKnownXattr (name : Path) : Bool := name ∈ wellKnownXattrs

/-- `normalize_user_meta_key`: lower case, and underscores for dots. -/
def normalizeUserMetaKey (cfg : Config) (s : Path) : Path :=
  (cfg.toLowercase s).map (fun c ↦ if c = '.' then '_' else c)

/-- `parse_user_xattr_key`, `src/src/xattr_bridge.rs:67-79`. -/
def parseUserXattrKey (cfg : Config) (name : Path) : Option Path :=
  if isWellKnownXattr name then none
  else if !"user.".toList.isPrefixOf name then none
  else
    let raw := name.drop 5
    if raw.isEmpty then none else some (normalizeUserMetaKey cfg raw)

/-- Where a call stands: before its `stat`, before its read with the map it will write, or before
its write with that map and the bytes it read. -/
inductive XattrStage where
  | stat
  | read (map : UserMeta)
  | write (map : UserMeta) (bytes : Bytes)

/-- A call that has passed its checks; `value` is what it sets, or `none` if it removes. -/
structure XattrCall where
  path : Path
  name : Path
  key : Path
  value : Option Bytes
  stage : XattrStage

/-- The change a call makes to a map. -/
def XattrCall.change (c : XattrCall) (map : UserMeta) : UserMeta :=
  match c.value with
  | some value => map.insert c.key value
  | none => map.erase c.key

/-- The gate of `--metadata`. -/
def metadataEnabled (metadata : Bool) : Except IoError Unit :=
  if metadata then .ok ()
  else .error ⟨.unsupported, "xattr metadata disabled (pass --metadata to enable)", none⟩

/-- The key of an attribute that can be written. -/
def writableXattrKey (cfg : Config) (op : String) (name : Path) : Except IoError Path :=
  match parseUserXattrKey cfg name with
  | some key => .ok key
  | none =>
    .error ⟨.unsupported, op ++ ": " ++ (String.ofList name).quote ++
      " is not a writable user.* xattr (well-known names like user.etag/user.mime_type are " ++
      "derived from backend stat)", none⟩

/-- The path of the file an inode number names. -/
def xattrPath (fs : MntrsFs) (op : String) (ino : Ino) : Except IoError Path :=
  match fs.inodes.lookup ino with
  | none => .error ⟨.notFound, op ++ ": ino " ++ toString ino ++ " not found", none⟩
  | some entry =>
    if entry.kind = .directory then
      .error ⟨.unsupported,
        op ++ " on directory (rclone parity — --metadata applies to objects only)", none⟩
    else .ok entry.path

/-- `setxattr` up to its first request to the backend. -/
def setxattr (cfg : Config) (metadata : Bool) (fs : MntrsFs) (ino : Ino) (name : Path)
    (value : Bytes) : Except IoError XattrCall := do
  metadataEnabled metadata
  let key ← writableXattrKey cfg "setxattr" name
  if !(ByteArray.mk value.toArray).validateUTF8 then
    throw ⟨.invalidInput, "setxattr: value must be valid UTF-8", none⟩
  let path ← xattrPath fs "setxattr" ino
  return ⟨path, name, key, some value, .stat⟩

/-- `removexattr` up to its first request to the backend. -/
def removexattr (cfg : Config) (metadata : Bool) (fs : MntrsFs) (ino : Ino) (name : Path) :
    Except IoError XattrCall := do
  metadataEnabled metadata
  let key ← writableXattrKey cfg "removexattr" name
  let path ← xattrPath fs "removexattr" ino
  return ⟨path, name, key, none, .stat⟩

/-- The `stat` of a call, `8086-8107,8176-8215`: the map it will write, unless the attribute to
remove is not there. -/
def xattrStat (fs : MntrsFs) (userMeta : Path → UserMeta) (c : XattrCall)
    (failure : Option ErrorKind) : Except IoError XattrCall :=
  match failure, fs.backend c.path with
  | some e, _ => .error ⟨.other, "stat failed", some e⟩
  | none, none => .error ⟨.other, "stat failed", some .notFound⟩
  | none, some _ =>
    if c.value = none ∧ (userMeta c.path).lookup c.key = none then
      .error ⟨.notFound, "removexattr: " ++ (String.ofList c.name).quote ++ " not present", none⟩
    else .ok { c with stage := .read (c.change (userMeta c.path)) }

/-- The read of a call. -/
def xattrRead (fs : MntrsFs) (c : XattrCall) (map : UserMeta) (failure : Option ErrorKind) :
    Except IoError XattrCall :=
  match failure, fs.backend c.path with
  | some e, _ => .error ⟨.other, "read failed", some e⟩
  | none, none => .error ⟨.other, "read failed", some .notFound⟩
  | none, some bytes => .ok { c with stage := .write map bytes }

/-- The object a call writes. -/
def xattrPut (fs : MntrsFs) (c : XattrCall) (bytes : Bytes) : MntrsFs :=
  { fs with backend := Function.update fs.backend c.path (some bytes) }

/-- The end of a call: the cached attributes of the path go. -/
def xattrFinish (fs : MntrsFs) (c : XattrCall) : MntrsFs :=
  { fs with attrCache := Function.update fs.attrCache c.path none }

/-! ### Calls that pass their checks -/

variable {cfg : Config} {name : Path} {metadata : Bool}

theorem writableXattrKey_ok {op : String} {key : Path}
    (h : writableXattrKey cfg op name = .ok key) : parseUserXattrKey cfg name = some key := by
  unfold writableXattrKey at h
  split at h <;> cases h
  rename_i hkey
  exact hkey

/-- A `setxattr` that has passed its checks. -/
theorem setxattr_ok {fs : MntrsFs} {ino : Ino} {value : Bytes} {c : XattrCall}
    (h : setxattr cfg metadata fs ino name value = .ok c) :
    ∃ path key, parseUserXattrKey cfg name = some key ∧
      c = ⟨path, name, key, some value, .stat⟩ := by
  simp only [setxattr, bind, Except.bind, pure, Except.pure, throw, throwThe,
    MonadExceptOf.throw] at h
  repeat' split at h
  all_goals cases h
  exact ⟨_, _, writableXattrKey_ok ‹_›, rfl⟩

/-- A `removexattr` that has passed its checks. -/
theorem removexattr_ok {fs : MntrsFs} {ino : Ino} {c : XattrCall}
    (h : removexattr cfg metadata fs ino name = .ok c) :
    ∃ path key, parseUserXattrKey cfg name = some key ∧ c = ⟨path, name, key, none, .stat⟩ := by
  simp only [removexattr, bind, Except.bind, pure, Except.pure] at h
  repeat' split at h
  all_goals cases h
  exact ⟨_, _, writableXattrKey_ok ‹_›, rfl⟩

end Mntrs

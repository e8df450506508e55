import Mntrs.Base.Utf16
import Mntrs.Names.SymlinkIndex
import Mntrs.WinFsp.Adapter

/-!
# Reparse buffers of symlinks

`set_reparse_point` decodes a target from UTF-16 and stores it; `get_reparse_point` and
`get_reparse_point_by_name` widen the stored UTF-8 bytes to units one by one
(`src/src/core_fs/winfsp.rs:2212-2690`). That is the target's own encoding for ASCII and for
nothing else.
-/

namespace Mntrs

open Base

/-- The statuses of the callbacks. -/
inductive NtStatus where
  | invalidParameter
  | notImplemented
  | invalidDeviceRequest
  /-- a panic that was caught -/
  | unsuccessful
  | io (e : IoError)

/-- `IO_REPARSE_TAG_SYMLINK`. -/
def ioReparseTagSymlink : Nat := 0xA000000C

/-- `MntrsFs::readlink`, `src/src/lib.rs:8342-8364`. -/
def readlink (fs : MntrsFs) (ino : Ino) : Except IoError Bytes :=
  let named := "readlink: ino " ++ toString ino
  match fs.inodes.lookup ino with
  | none => .error ⟨.notFound, named ++ " not found", none⟩
  | some e =>
    match fs.symlinks.lookup e.path with
    | none => .error ⟨.invalidInput, named ++ " is not a symlink (" ++ String.ofList e.path ++ ")",
        none⟩
    | some target => .ok (utf8 target)

/-- A `u16` of a buffer. -/
def u16At (buffer : Bytes) (i : Nat) : Nat := leNat ((buffer.drop i).take 2)

/-- The name whose offset and length are at a place of a buffer. -/
def nameAt (buffer : Bytes) (i : Nat) : Path :=
  let start := 20 + u16At buffer i
  decodeUtf16Lossy (leUnits ((buffer.take (start + u16At buffer (i + 2))).drop start))

/-- The fields before the names, both of one length. -/
def symlinkHeader (len : Nat) : Bytes :=
  leBytes 4 ioReparseTagSymlink ++ leBytes 2 (12 + 2 * len) ++ leBytes 2 0 ++ leBytes 2 0 ++
    leBytes 2 len ++ leBytes 2 len ++ leBytes 2 len ++ leBytes 4 0

/-- The buffer that the getters fill, with the widened bytes of the target twice. -/
def symlinkBuffer (target : Bytes) : Bytes :=
  let wide := utf16Bytes (target.map UInt8.toNat)
  symlinkHeader wide.length ++ (wide ++ wide)

/-- The end of the getters: the size, and the buffer, filled if it is long enough. Sums of `u16`
that overflow, and names longer than the sum of the wrapped lengths, panic: release builds wrap the
sum instead, and panic at the slice that is then too short. -/
def fillReparse (target buffer : Bytes) : Except NtStatus (Nat × Bytes) :=
  let pathByteLen := target.length * 2 % 2 ^ 16
  let totalSize := 20 + pathByteLen * 2
  if 2 ^ 16 ≤ totalSize then .error .unsuccessful
  else if buffer.length < totalSize then .ok (totalSize, buffer)
  else if totalSize < 20 + target.length * 4 then .error .unsuccessful
  else .ok (totalSize, symlinkBuffer target ++ buffer.drop totalSize)

/-- `WinFspAdapter::get_reparse_point`. -/
def getReparsePoint (fs : MntrsFs) (context : WinFspHandle) (buffer : Bytes) :
    Except NtStatus (Nat × Bytes) :=
  match readlink fs context.ino with
  | .error e => .error (.io e)
  | .ok target => fillReparse target buffer

/-- `WinFspAdapter::get_reparse_point_by_name`: the whole name is looked up below the root. -/
def getReparsePointByName (cfg : Config) (fs : MntrsFs) (fileName : Path) (env : StatEnv)
    (buffer : Bytes) : Except NtStatus (Nat × Bytes) :=
  match lookup cfg fs 1 (kernelPath cfg fileName) env with
  | (.error e, _) => .error (.io e)
  | (.ok attr, fs) =>
    if attr.kind ≠ .symlink then .error .invalidDeviceRequest
    else match readlink fs attr.ino with
      | .error e => .error (.io e)
      | .ok target => fillReparse target buffer

/-- `WinFspAdapter::set_reparse_point`: an empty target unlinks a file that is a symlink. -/
def setReparsePoint (cfg : Config) (fs : MntrsFs) (context : WinFspHandle) (fileName : Path)
    (buffer : Bytes) (env : CleanupEnv) : Except NtStatus Unit × MntrsFs :=
  if buffer.length < 8 then (.error .invalidParameter, fs)
  else if leNat (buffer.take 4) ≠ ioReparseTagSymlink then (.error .notImplemented, fs)
  else if buffer.length < 20 then (.error .invalidParameter, fs)
  else if buffer.length < 20 + u16At buffer 8 + u16At buffer 10 ∨
      buffer.length < 20 + u16At buffer 12 + u16At buffer 14 then
    (.error .invalidParameter, fs)
  else
    let (attr, fs) := getattr cfg fs context.ino env.attr
    let isAlreadySymlink := (attr.toOption.map FileAttr.kind) = some .symlink
    if (u16At buffer 10 = 0 ∧ u16At buffer 14 = 0) ∧ isAlreadySymlink then
      let (parentPath, basename) := cleanupNames (cfg.toLowercase (kernelPath cfg fileName))
      let (parent, fs) := parentInoFor cfg fs parentPath env.parents
      (.ok (), (unlink cfg fs (parent.getD 1) basename env.delete).2)
    else
      match attachSymlinkToIno cfg fs context.ino (nameAt buffer 8) env.attr.now with
      | (.ok _, fs) => (.ok (), fs)
      | (.error e, fs) => (.error (.io e), fs)

/-! ### What a buffer says -/

/-- A buffer whose fields agree with its length and whose names are the target. -/
structure NamesTarget (t : Path) (buffer : Bytes) : Prop where
  tag : leNat (buffer.take 4) = ioReparseTagSymlink
  dataLength : u16At buffer 4 + 8 = buffer.length
  substituteEnd : 20 + u16At buffer 8 + u16At buffer 10 ≤ buffer.length
  printEnd : 20 + u16At buffer 12 + u16At buffer 14 = buffer.length
  substituteName : nameAt buffer 8 = t
  printName : nameAt buffer 12 = t

/-- The bytes of a target as characters, one by one. -/
def widened (target : Bytes) : Path := target.map fun b ↦ Char.ofNat b.toNat

private theorem decode_wide (target : Bytes) :
    decodeUtf16Lossy (leUnits (utf16Bytes (target.map UInt8.toNat))) = widened target := by
  have hbyte : ∀ u ∈ target.map UInt8.toNat, u < 256 := by
    intro u hu
    obtain ⟨b, -, rfl⟩ := List.mem_map.mp hu
    exact b.toNat_lt
  rw [leUnits_utf16Bytes fun u hu ↦ (hbyte u hu).trans (by decide),
    decodeUtf16Lossy_of_lt fun u hu ↦ (hbyte u hu).trans (by decide), List.map_map]
  rfl

private theorem length_symlinkBuffer (target : Bytes) :
    (symlinkBuffer target).length = 20 + 4 * target.length := by
  have hheader : ∀ len, (symlinkHeader len).length = 20 := fun _ ↦ rfl
  rw [symlinkBuffer, List.length_append, List.length_append, hheader, length_utf16Bytes,
    List.length_map]
  omega

/-- The fields of a header, where the names' length fits. -/
private theorem symlinkHeader_fields {len : Nat} (hlen : 12 + 2 * len < 256 ^ 2) (rest : Bytes) :
    let buffer := symlinkHeader len ++ rest
    leNat (buffer.take 4) = ioReparseTagSymlink ∧ u16At buffer 4 = 12 + 2 * len ∧
      u16At buffer 8 = 0 ∧ u16At buffer 10 = len ∧ u16At buffer 12 = len ∧
      u16At buffer 14 = len := by
  have hname : leNat (leBytes 2 len) = len := leNat_leBytes_of_lt (by omega)
  have htag : leNat (leBytes 4 ioReparseTagSymlink) = ioReparseTagSymlink :=
    leNat_leBytes_of_lt (by decide)
  exact ⟨htag, leNat_leBytes_of_lt hlen, rfl, hname, hname, hname⟩

private theorem nameAt_append {buffer front wide rest : Bytes} {i : Nat}
    (hbuffer : buffer = front ++ (wide ++ rest)) (hstart : 20 + u16At buffer i = front.length)
    (hlen : u16At buffer (i + 2) = wide.length) :
    nameAt buffer i = decodeUtf16Lossy (leUnits wide) := by
  simp only [nameAt, hstart, hlen]
  rw [hbuffer, List.take_append]
  simp

/-- The names of a filled buffer that fits its fields are the widened bytes. -/
theorem namesTarget_symlinkBuffer_iff {target : Bytes} (hlen : 20 + target.length * 4 < 2 ^ 16)
    (t : Path) : NamesTarget t (symlinkBuffer target) ↔ widened target = t := by
  obtain ⟨wide, hwide⟩ : ∃ wide, wide = utf16Bytes (target.map UInt8.toNat) := ⟨_, rfl⟩
  have hcount : wide.length = 2 * target.length := by
    rw [hwide, length_utf16Bytes, List.length_map]
  have hbuffer : symlinkBuffer target = symlinkHeader wide.length ++ (wide ++ wide) := by
    rw [hwide, symlinkBuffer]
  have hheader : (symlinkHeader wide.length).length = 20 := rfl
  have hlength := length_symlinkBuffer target
  obtain ⟨htag, hdata, hoff, hsub, hprintOff, hprintLen⟩ :=
    symlinkHeader_fields (show 12 + 2 * wide.length < 256 ^ 2 by omega) (wide ++ wide)
  rw [← hbuffer] at htag hdata hoff hsub hprintOff hprintLen
  have hsubstitute : nameAt (symlinkBuffer target) 8 = widened target := by
    rw [nameAt_append hbuffer (by omega) hsub, hwide, decode_wide]
  have hprint : nameAt (symlinkBuffer target) 12 = widened target := by
    have hsplit : symlinkBuffer target = (symlinkHeader wide.length ++ wide) ++ (wide ++ []) := by
      rw [hbuffer, List.append_nil, List.append_assoc]
    rw [nameAt_append hsplit (by rw [hprintOff, List.length_append, hheader]) hprintLen, hwide,
      decode_wide]
  constructor
  · rintro ⟨-, -, -, -, hname, -⟩
    rw [← hname, hsubstitute]
  · rintro rfl
    exact ⟨htag, by omega, by omega, by omega, hsubstitute, hprint⟩

private theorem widened_utf8_of_ascii {t : Path} (h : ∀ c ∈ t, c.toNat < 128) :
    widened (utf8 t) = t := by
  induction t with
  | nil => rfl
  | cons c t ih =>
    have hc : c.toNat < 128 := h c (by simp)
    rw [utf8_cons, String.utf8EncodeChar_eq_singleton ((utf8Size_eq_one_iff c).mpr hc)]
    change Char.ofNat c.toUInt8.toNat :: widened (utf8 t) = c :: t
    rw [toNat_toUInt8 hc, Char.ofNat_toNat, ih fun d hd ↦ h d (by simp [hd])]

/-- A text is its own UTF-8 bytes exactly when it is ASCII. -/
theorem widened_utf8_eq_iff (t : Path) : widened (utf8 t) = t ↔ ∀ c ∈ t, c.toNat < 128 := by
  refine ⟨fun h c hc ↦ ?_, widened_utf8_of_ascii⟩
  -- one byte for each character
  have hlength : (utf8 t).length = t.length :=
    (List.length_map _).symm.trans (congrArg List.length h)
  exact (utf8Size_eq_one_iff c).mp (utf8Size_of_length_utf8 hlength c hc)

/-- A getter reports one size, fills the front of a buffer that is long enough with the names of
the target, and leaves a shorter one alone. -/
def Reports (t : Path) (get : Bytes → Except NtStatus (Nat × Bytes)) : Prop :=
  ∃ size, (∀ buffer, size ≤ buffer.length → ∃ filled, NamesTarget t filled ∧
      filled.length = size ∧ get buffer = .ok (size, filled ++ buffer.drop size)) ∧
    ∀ buffer, buffer.length < size → get buffer = .ok (size, buffer)

/-- The getters report a target that fits exactly when it is ASCII. -/
theorem reports_fillReparse_iff {t : Path} (hfits : 20 + 2 * (encodeUtf16 t).length ≤ 16384) :
    Reports t (fillReparse (utf8 t)) ↔ ∀ c ∈ t, c.toNat < 128 := by
  rw [← widened_utf8_eq_iff]
  constructor
  · rintro ⟨size, hfill, -⟩
    obtain ⟨filled, hnames, hsize, hget⟩ := hfill (List.replicate size 0) (by simp)
    simp only [fillReparse] at hget
    split_ifs at hget with hover hshort hwrapped
    · simp only [Except.ok.injEq, Prod.mk.injEq] at hget
      rw [List.length_replicate] at hshort
      omega
    · simp only [Except.ok.injEq, Prod.mk.injEq] at hget
      obtain ⟨htotal, hbytes⟩ := hget
      rw [htotal, List.drop_of_length_le (by simp), List.append_nil, List.append_nil] at hbytes
      exact (namesTarget_symlinkBuffer_iff (by omega) t).mp (hbytes ▸ hnames)
  · intro hwidened
    have hcount : (utf8 t).length ≤ 8182 := by
      have hlength : (widened (utf8 t)).length = t.length := congrArg List.length hwidened
      rw [widened, List.length_map] at hlength
      have hunits := length_le_length_encodeUtf16 t
      omega
    have hmod : (utf8 t).length * 2 % 2 ^ 16 = (utf8 t).length * 2 :=
      Nat.mod_eq_of_lt (by omega)
    have hsmall : 20 + (utf8 t).length * 4 < 2 ^ 16 := by omega
    have hnames := (namesTarget_symlinkBuffer_iff hsmall t).mpr hwidened
    refine ⟨20 + (utf8 t).length * 2 * 2, fun buffer hlong ↦ ?_, fun buffer hshort ↦ ?_⟩
    · refine ⟨symlinkBuffer (utf8 t), hnames, ?_, ?_⟩
      · rw [length_symlinkBuffer]
        omega
      · rw [fillReparse, hmod, if_neg (by omega), if_neg (by omega), if_neg (by omega)]
    · rw [fillReparse, hmod, if_neg (by omega), if_pos hshort]

/-! ### After a target was set -/

/-- A buffer of a symlink whose SubstituteName is a target in UTF-16. -/
structure CarriesTarget (t : Path) (buffer : Bytes) : Prop where
  length : 20 ≤ buffer.length
  tag : leNat (buffer.take 4) = ioReparseTagSymlink
  substituteEnd : 20 + u16At buffer 8 + u16At buffer 10 ≤ buffer.length
  printEnd : 20 + u16At buffer 12 + u16At buffer 14 ≤ buffer.length
  substituteName : (buffer.take (20 + u16At buffer 8 + u16At buffer 10)).drop
    (20 + u16At buffer 8) = utf16Bytes (encodeUtf16 t)

/-- A file that a create has just made, whose path leads to it. -/
structure Placeholder (fs : MntrsFs) (ino : Ino) (e : InodeEntry) : Prop where
  live : fs.inodes.lookup ino = some e
  kind : e.kind = .regularFile
  mapped : fs.pathToIno e.path = some ino

/-- A name under which the root leads to a path, in some spelling. -/
structure LeadsTo (cfg : Config) (fs : MntrsFs) (fileName path : Path) : Prop where
  noDots : kernelPath cfg fileName ≠ ['.'] ∧ kernelPath cfg fileName ≠ ['.', '.']
  spelling : cfg.toLowercase (entryNames fs 1 (kernelPath cfg fileName)).2.2 =
    cfg.toLowercase path
  visible : (entryNames fs 1 (kernelPath cfg fileName)).2.2 ∉ fs.deleteTombstones

variable {cfg : Config} {fs : MntrsFs} {e : InodeEntry} {t : Path} {buffer : Bytes}

variable {path : Path} {ino : Ino} {fileName : Path} {context : WinFspHandle}

private theorem LeadsTo.of_registry {fs' : MntrsFs} {name : Path} (h : LeadsTo cfg fs name path)
    (hregistry : fs'.registry = fs.registry) (htombs : fs'.deleteTombstones = fs.deleteTombstones) :
    LeadsTo cfg fs' name path := by
  have hnames : entryNames fs' 1 = entryNames fs 1 := by
    have hroot : resolvePath fs' 1 = resolvePath fs 1 :=
      congrArg (fun r : Registry Path ↦ (r.live 1).getD []) hregistry
    funext n
    simp [entryNames, hroot]
  exact ⟨h.noDots, by rw [hnames]; exact h.spelling, by rw [hnames, htombs]; exact h.visible⟩

/-- A file is a symlink to a target, under its own path. -/
structure LinkedTo (cfg : Config) (fs : MntrsFs) (ino : Ino) (path t : Path) : Prop where
  live : ∃ e, fs.inodes.lookup ino = some e ∧ e.path = path
  mapped : fs.pathToIno path = some ino
  target : fs.symlinks.lookup path = some t
  index : fs.symlinksLower (cfg.toLowercase path) = some path

theorem LinkedTo.readlink_eq (h : LinkedTo cfg fs ino path t) : readlink fs ino = .ok (utf8 t) := by
  obtain ⟨e, he, rfl⟩ := h.live
  simp [readlink, he, h.target]

/-- A lookup by a name of the path finds the symlink. -/
theorem LinkedTo.lookup_eq (h : LinkedTo cfg fs ino path t) (hname : LeadsTo cfg fs fileName path)
    (env : StatEnv) :
    lookup cfg fs 1 (kernelPath cfg fileName) env =
      (.ok ⟨ino, (utf8 t).length, .symlink, env.now⟩, bumpLookupCount fs ino) := by
  obtain ⟨e, he, rfl⟩ := h.live
  have hsome : fs.symlinks.entries ≠ [] :=
    List.ne_nil_of_mem (Table.lookup_eq_some_iff.mp h.target)
  have hentry : lookupSymlinkEntryCaseInsensitive cfg fs
      (entryNames fs 1 (kernelPath cfg fileName)).2.2 = (some (e.path, t), fs) := by
    simp [lookupSymlinkEntryCaseInsensitive, if_neg hsome, hname.spelling, h.index, h.target]
  have halloc : allocIno fs e.path .symlink (utf8 t).length = (ino, fs) := by
    simp only [allocIno, allocInode, h.mapped, Option.filter_some, he, Option.isSome_some, if_true]
  unfold lookup
  rw [if_neg (not_or.mpr hname.noDots)]
  simp [if_neg hname.visible, hentry, halloc]

/-- Both getters find the target. -/
theorem LinkedTo.getters (h : LinkedTo cfg fs context.ino path t)
    (hname : LeadsTo cfg fs fileName path) (env : StatEnv) :
    getReparsePoint fs context = fillReparse (utf8 t) ∧
      getReparsePointByName cfg fs fileName env = fillReparse (utf8 t) := by
  have hread : readlink (bumpLookupCount fs context.ino) context.ino = .ok (utf8 t) := by
    rw [bumpLookupCount_frame]
    exact h.readlink_eq
  constructor
  · funext buffer
    simp [getReparsePoint, h.readlink_eq]
  · funext buffer
    simp [getReparsePointByName, h.lookup_eq hname, hread]

private theorem getattr_kind_ne (hlive : fs.inodes.lookup ino = some e)
    (hkind : e.kind = .regularFile) (env : StatEnv) :
    (getattr cfg fs ino env).1.toOption.map FileAttr.kind ≠ some .symlink := by
  have hne : ¬e.kind = .symlink := by simp [hkind]
  simp only [getattr, hlive, if_neg hne]
  split_ifs <;> simp [Except.toOption, hkind]

/-- A file becomes a symlink. -/
theorem linkedTo_attach (hfile : Placeholder fs ino e) (t : Path) (now : Nat) :
    (attachSymlinkToIno cfg fs ino t now).1 = .ok ⟨ino, (utf8 t).length, .symlink, now⟩ ∧
      LinkedTo cfg (attachSymlinkToIno cfg fs ino t now).2 ino e.path t ∧
      (attachSymlinkToIno cfg fs ino t now).2.deleteTombstones = fs.deleteTombstones := by
  simp only [attachSymlinkToIno, hfile.live, hfile.kind]
  rw [bumpLookupCount_frame]
  refine ⟨trivial, ?_, rfl⟩
  exact
    { live := ⟨{ e with kind := .symlink, size := (utf8 t).length },
        (Table.lookup_modify _ _ _).trans (by rw [hfile.live]; rfl), rfl⟩
      mapped := hfile.mapped
      target := AList.lookup_insert _
      index := Function.update_self .. }

/-- A target that is set is stored. -/
theorem linkedTo_setReparsePoint (hfile : Placeholder fs context.ino e)
    (hbuffer : CarriesTarget t buffer) (fileName : Path) (env : CleanupEnv) :
    ∃ fs', setReparsePoint cfg fs context fileName buffer env = (.ok (), fs') ∧
      LinkedTo cfg fs' context.ino e.path t ∧ ∀ name path, LeadsTo cfg fs name path →
        LeadsTo cfg fs' name path := by
  have htarget : nameAt buffer 8 = t := by
    rw [nameAt, hbuffer.substituteName, leUnits_utf16Bytes fun _ ↦ encodeUtf16_lt,
      decodeUtf16Lossy_encodeUtf16]
  have hends : ¬(buffer.length < 20 + u16At buffer 8 + u16At buffer 10 ∨
      buffer.length < 20 + u16At buffer 12 + u16At buffer 14) := by
    have hsub := hbuffer.substituteEnd
    have hprint := hbuffer.printEnd
    omega
  unfold setReparsePoint
  rw [if_neg (by omega), if_neg (not_not.mpr hbuffer.tag), if_neg (by omega), if_neg hends]
  simp only
  rw [if_neg fun h ↦ getattr_kind_ne hfile.live hfile.kind env.attr h.2, htarget]
  have hattr := getattr_frame cfg fs context.ino env.attr
  have hfile' : Placeholder (getattr cfg fs context.ino env.attr).2 context.ino e := by
    rw [hattr]
    exact ⟨hfile.live, hfile.kind, hfile.mapped⟩
  obtain ⟨hok, hlinked, htombs⟩ := @linkedTo_attach cfg _ e context.ino hfile' t env.attr.now
  refine ⟨_, ?_, hlinked, fun name path hname ↦ ?_⟩
  · split
    · next heq => rw [heq]
    · next heq =>
      rw [heq] at hok
      cases hok
  · apply hname.of_registry
    · rw [registry_attach, hattr]
      rfl
    · rw [htombs, hattr]

/-- After a target that fits was set, the getters report it exactly when it is ASCII. -/
theorem reparse_round_trip_iff {context : WinFspHandle} (hfile : Placeholder fs context.ino e)
    (hbuffer : CarriesTarget t buffer) (hfits : 20 + 2 * (encodeUtf16 t).length ≤ 16384)
    {fileName : Path} (hname : LeadsTo cfg fs fileName e.path) (setName : Path)
    (env : CleanupEnv) (stat : StatEnv) :
    let set := setReparsePoint cfg fs context setName buffer env
    (set.1 = .ok () ∧ Reports t (getReparsePoint set.2 context) ∧
      Reports t (getReparsePointByName cfg set.2 fileName stat)) ↔ ∀ c ∈ t, c.toNat < 128 := by
  obtain ⟨fs', hset, hlinked, hleads⟩ :=
    @linkedTo_setReparsePoint cfg fs e t buffer context hfile hbuffer setName env
  obtain ⟨hget, hbyName⟩ := hlinked.getters (hleads _ _ hname) stat
  simp only [hset, hget, hbyName, true_and, and_self]
  exact reports_fillReparse_iff hfits

/-- A mount with a file that is going to be a symlink. -/
def placeholderMount : MntrsFs := (create (.plain .off) emptyMount 1 ['f'] (.ok 0)).2

private theorem placeholder_mount :
    ∃ e, Placeholder placeholderMount (fileContext 2).ino e ∧ e.path = ['f'] :=
  ⟨_, ⟨rfl, rfl, rfl⟩, rfl⟩

/-- A target in ASCII comes back. -/
theorem reparse_round_trip_iff_sample :
    let set := setReparsePoint (.plain .off) placeholderMount (fileContext 2) ['\\', 'f']
      (symlinkBuffer [120]) .ok
    Reports ['x'] (getReparsePoint set.2 (fileContext 2)) ∧
      Reports ['x'] (getReparsePointByName (.plain .off) set.2 ['\\', 'F'] (.plain 0)) := by
  obtain ⟨e, hfile, hpath⟩ := placeholder_mount
  have hbuffer : CarriesTarget ['x'] (symlinkBuffer [120]) :=
    ⟨by decide, by decide, by decide, by decide, by decide⟩
  have hname : LeadsTo (.plain .off) placeholderMount ['\\', 'F'] e.path := by
    rw [hpath]
    exact ⟨by decide, rfl, by decide⟩
  exact ((reparse_round_trip_iff hfile hbuffer (by decide) hname ['\\', 'f'] .ok
    (.plain 0)).mpr (by simp)).2

/-- The fields of a buffer for one character beyond ASCII, and what comes back for it. -/
theorem accented_target_garbled :
    let buffer := symlinkHeader 2 ++ utf16Bytes (encodeUtf16 ['é', 'é'])
    CarriesTarget ['é'] buffer ∧
    let set := setReparsePoint (.plain .off) placeholderMount (fileContext 2) ['\\', 'f'] buffer .ok
    set.1 = .ok () ∧ ∃ out,
      getReparsePoint set.2 (fileContext 2) (List.replicate 28 0) = .ok (28, out) ∧
      nameAt out 8 = ['Ã', '©'] :=
  ⟨⟨by decide, by decide, by decide, by decide, by decide⟩, rfl, _, rfl, by decide⟩

end Mntrs

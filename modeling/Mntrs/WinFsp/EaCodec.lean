import Mntrs.Cache.BlockFormat

/-!
# Buffers of extended attributes

Models `src/src/xattr_bridge_ea.rs`: the iterator of `parse_ea_entries` (`71-125`), `write_ea_entry`
(`142-187`) and `write_ea_terminator` (`193-200`). An outer `none` is a panic: a range outside the
buffer, or a `usize` of 64 bits that overflows; a `u32` wraps.

The parser takes `NextEntryOffset` from the start of the entry, the writer stores it from the start
of the buffer. The two agree for the entry at the start, so a third entry is never found.
-/

namespace Mntrs

open Base

/-- `EaEntry`. -/
structure EaEntry where
  name : Path
  value : Bytes
  flags : UInt8
deriving DecidableEq, Repr

variable {buffer : Bytes} {offset next : Nat} {e : EaEntry}

/-! ### The parser -/

/-- `a + b` of a `usize`. -/
def addUsize (a b : Nat) : Option Nat := if a + b < 2 ^ 64 then some (a + b) else none

/-- The header of an entry. -/
structure EaHeader where
  nextEntryOffset : Nat
  flags : UInt8
  nameLen : Nat
  valueLen : Nat

/-- The header at an offset. -/
def eaHeader (buffer : Bytes) (offset : Nat) : Option EaHeader := do
  let next ← slice? buffer offset (offset + 4)
  let flags ← buffer[offset + 4]?
  let nameLen ← buffer[offset + 5]?
  let valueLen ← slice? buffer (offset + 6) (offset + 8)
  return ⟨leNat next, flags, nameLen.toNat, leNat valueLen⟩

/-- The offset after an entry: past the buffer for the last one. -/
def eaAdvance (buffer : Bytes) (offset nextEntryOffset : Nat) : Option Nat :=
  if nextEntryOffset = 0 then addUsize buffer.length 1 else addUsize offset nextEntryOffset

/-- The name and the value after a header. -/
def eaBody (buffer : Bytes) (offset nameStart : Nat) (h : EaHeader) :
    Option (Option (EaEntry × Nat)) := do
  let valueStart ← addUsize nameStart h.nameLen
  let valueEnd ← addUsize valueStart h.valueLen
  if valueEnd > buffer.length then return none
  let name ← slice? buffer nameStart valueStart
  let value ← slice? buffer valueStart valueEnd
  let next ← eaAdvance buffer offset h.nextEntryOffset
  return some (⟨(fromUtf8 name).getD [], value, h.flags⟩, next)

/-- One call of the iterator: the entry and the offset it moves to, or nothing. -/
def eaNext (buffer : Bytes) (offset : Nat) : Option (Option (EaEntry × Nat)) := do
  let nameStart ← addUsize offset 8
  if nameStart > buffer.length then return none
  let header ← eaHeader buffer offset
  eaBody buffer offset nameStart header

/-- What the next calls of the iterator return. -/
def eaCalls (buffer : Bytes) : Nat → Nat → Option (List (Option EaEntry))
  | 0, _ => some []
  | k + 1, offset => do
    match ← eaNext buffer offset with
    | none => return none :: (← eaCalls buffer k offset)
    | some (e, next) => return some e :: (← eaCalls buffer k next)

/-- The iterator yields some entries, then nothing for ever. -/
def Yields (buffer : Bytes) (offset : Nat) (entries : List EaEntry) : Prop :=
  ∀ k, eaCalls buffer k offset = some ((List.range k).map (entries[·]?))

theorem yields_nil_iff : Yields buffer offset [] ↔ eaNext buffer offset = some none := by
  constructor
  · intro h
    have hone := h 1
    rw [eaCalls] at hone
    cases hnext : eaNext buffer offset with
    | none => simp [hnext] at hone
    | some r =>
      cases r with
      | none => rfl
      | some r => simp [hnext, eaCalls] at hone
  · intro hnext k
    induction k with
    | zero => rfl
    | succ k ih => simp [eaCalls, hnext, ih, List.range_succ_eq_map, Function.comp_def]

variable {es : List EaEntry} {n : Nat} {out : Bytes} {stop cursor : Nat} {r : Bytes × Nat}

theorem yields_cons_iff : Yields buffer offset (e :: es) ↔
    ∃ next, eaNext buffer offset = some (some (e, next)) ∧ Yields buffer next es := by
  constructor
  · intro h
    have hone := h 1
    rw [eaCalls] at hone
    cases hnext : eaNext buffer offset with
    | none => simp [hnext] at hone
    | some r =>
      cases r with
      | none => simp [hnext, eaCalls] at hone
      | some r =>
        obtain ⟨e', next⟩ := r
        obtain rfl : e' = e := by simpa [hnext, eaCalls] using hone
        refine ⟨next, rfl, fun k ↦ ?_⟩
        have hk := h (k + 1)
        cases hcalls : eaCalls buffer k next with
        | none => simp [eaCalls, hnext, hcalls] at hk
        | some rs =>
          simpa [eaCalls, hnext, hcalls, List.range_succ_eq_map, Function.comp_def] using hk
  · rintro ⟨next, hnext, hrest⟩ k
    cases k with
    | zero => rfl
    | succ k => simp [eaCalls, hnext, hrest k, List.range_succ_eq_map, Function.comp_def]

private theorem yields_cons_of (h : eaNext buffer offset = some (some (e, next))) :
    Yields buffer offset (e :: es) ↔ Yields buffer next es := by
  rw [yields_cons_iff, h]
  simp

/-- An entry lies in the buffer, its header at an offset. A name that is not UTF-8 is read as
empty. -/
def EaAt (buffer : Bytes) (offset : Nat) (e : EaEntry) : Prop :=
  ∃ name : Bytes, (fromUtf8 name).getD [] = e.name ∧ buffer[offset + 4]? = some e.flags ∧
    slice? buffer (offset + 8) (offset + 8 + name.length) = some name ∧
    slice? buffer (offset + 8 + name.length) (offset + 8 + name.length + e.value.length) =
      some e.value

private theorem addUsize_of_lt {a b : Nat} (h : a + b < 2 ^ 64) : addUsize a b = some (a + b) :=
  if_pos h

private theorem exists_slice? {start : Nat} (h : start + n ≤ buffer.length) :
    ∃ bytes : Bytes, slice? buffer start (start + n) = some bytes ∧ bytes.length = n := by
  refine ⟨_, slice?_of_le (Nat.le_add_right start n) h, ?_⟩
  rw [List.length_drop, List.length_take]
  omega

private theorem leNat_lt (bs : Bytes) : leNat bs < 256 ^ bs.length := by
  induction bs with
  | nil => simp [leNat]
  | cons b bs ih =>
    have hb := b.toNat_lt
    rw [leNat, List.length_cons]
    omega

private theorem eaHeader_eq (h : offset + 8 ≤ buffer.length) :
    ∃ header, eaHeader buffer offset = some header ∧ header.nextEntryOffset < 2 ^ 32 ∧
      header.nameLen < 2 ^ 8 ∧ header.valueLen < 2 ^ 16 ∧
      buffer[offset + 4]? = some header.flags := by
  obtain ⟨next, hnext, hnextLen⟩ := exists_slice? (show offset + 4 ≤ buffer.length by omega)
  obtain ⟨value, hvalue, hvalueLen⟩ :=
    exists_slice? (show offset + 6 + 2 ≤ buffer.length by omega)
  have hflags := List.getElem?_eq_getElem (show offset + 4 < buffer.length by omega)
  have hname := List.getElem?_eq_getElem (show offset + 5 < buffer.length by omega)
  refine ⟨⟨leNat next, buffer[offset + 4], buffer[offset + 5].toNat, leNat value⟩, ?_, ?_, ?_, ?_,
    hflags⟩
  · simp [eaHeader, hnext, hflags, hname, hvalue]
  · simpa [hnextLen] using leNat_lt next
  · exact buffer[offset + 5].toNat_lt
  · simpa [hvalueLen] using leNat_lt value

private theorem eaAdvance_eq (hlen : buffer.length < 2 ^ 31) (hn : n < 2 ^ 32)
    (hoffset : offset ≤ buffer.length) :
    ∃ next, eaAdvance buffer offset n = some next ∧ offset < next ∧ next < 2 ^ 33 := by
  unfold eaAdvance
  split <;> exact ⟨_, addUsize_of_lt (by omega), by omega, by omega⟩

/-- A call of the iterator never panics. What it yields lies in the buffer, and it moves on. -/
theorem eaNext_cases (hlen : buffer.length < 2 ^ 31) (hoffset : offset < 2 ^ 33) :
    eaNext buffer offset = some none ∨ ∃ e next, eaNext buffer offset = some (some (e, next)) ∧
      EaAt buffer offset e ∧ offset < next ∧ next < 2 ^ 33 := by
  unfold eaNext
  rw [addUsize_of_lt (by omega)]
  by_cases hheader : offset + 8 > buffer.length
  · exact .inl (if_pos hheader)
  obtain ⟨header, hread, hnext, hname, hvalue, hflags⟩ := eaHeader_eq (Nat.le_of_not_lt hheader)
  simp only [Option.bind_eq_bind, Option.bind_some, if_neg hheader, hread]
  unfold eaBody
  rw [addUsize_of_lt (by omega), Option.bind_eq_bind, Option.bind_some, addUsize_of_lt (by omega)]
  by_cases hfits : offset + 8 + header.nameLen + header.valueLen > buffer.length
  · exact .inl (if_pos hfits)
  obtain ⟨name, hnameRead, hnameLen⟩ :=
    exists_slice? (show offset + 8 + header.nameLen ≤ buffer.length by omega)
  obtain ⟨value, hvalueRead, hvalueLen⟩ := exists_slice? (Nat.le_of_not_lt hfits)
  obtain ⟨next, hadvance, hlt, hbound⟩ := eaAdvance_eq hlen hnext (show offset ≤ _ by omega)
  right
  refine ⟨⟨(fromUtf8 name).getD [], value, header.flags⟩, next, ?_, ⟨name, rfl, hflags, ?_, ?_⟩,
    hlt, hbound⟩
  · simp only [Option.bind_eq_bind, Option.bind_some, if_neg hfits, hnameRead, hvalueRead, hadvance]
    rfl
  · rw [hnameLen, hnameRead]
  · rw [hnameLen, hvalueLen, hvalueRead]

private theorem utf8_of_fromUtf8 {bytes : Bytes} {p : Path} (h : fromUtf8 bytes = some p) :
    utf8 p = bytes := by
  obtain ⟨chars, hdecode, rfl⟩ := Option.map_eq_some_iff.mp h
  obtain ⟨l, hl⟩ := ByteArray.isSome_utf8Decode?_iff.mp (Option.isSome_of_eq_some hdecode)
  rw [hl, List.utf8Decode?_utf8Encode] at hdecode
  cases hdecode
  have hdata : (bytes.toByteArray).data = (utf8 l).toByteArray.data := congrArg ByteArray.data hl
  simpa using hdata.symm

theorem EaAt.fits (h : EaAt buffer offset e) :
    offset + 8 + (utf8 e.name).length + e.value.length ≤ buffer.length := by
  obtain ⟨name, hname, -, -, hvalue⟩ := h
  have hle : (utf8 e.name).length ≤ name.length := by
    rw [← hname]
    cases hdecode : fromUtf8 name with
    | none => simp [utf8]
    | some p => simp [utf8_of_fromUtf8 hdecode]
  have hstop : offset + 8 + name.length + e.value.length ≤ buffer.length := by
    unfold slice? at hvalue
    split at hvalue
    · next hle => exact hle.2
    · cases hvalue
  omega

/-- The calls of the iterator from an offset on that yield an entry, each with the offset it is
made at. -/
def Visits (buffer : Bytes) : Nat → List (Nat × EaEntry) → Prop
  | _, [] => True
  | offset, (start, e) :: rest => start = offset ∧
      ∃ next, eaNext buffer offset = some (some (e, next)) ∧ Visits buffer next rest

/-- The entries found from an offset on: not more than there are bytes left, one behind the
other. -/
private theorem exists_yields (hlen : buffer.length < 2 ^ 31) (hoffset : offset < 2 ^ 33)
    (hn : buffer.length - offset ≤ n) :
    ∃ found : List (Nat × EaEntry), Visits buffer offset found ∧
      Yields buffer offset (found.map Prod.snd) ∧ found.length ≤ buffer.length - offset ∧
      (found.map Prod.fst).Pairwise (· < ·) ∧ ∀ p ∈ found, offset ≤ p.1 ∧ EaAt buffer p.1 p.2 := by
  induction n generalizing offset with
  | zero =>
    rcases eaNext_cases hlen hoffset with hnone | ⟨e, next, -, hat, -⟩
    · exact ⟨[], trivial, yields_nil_iff.mpr hnone, by simp⟩
    · have hfits := hat.fits
      omega
  | succ n ih =>
    rcases eaNext_cases hlen hoffset with hnone | ⟨e, next, hsome, hat, hlt, hbound⟩
    · exact ⟨[], trivial, yields_nil_iff.mpr hnone, by simp⟩
    · have hfits := hat.fits
      obtain ⟨found, hvisits, hyields, hcount, hsorted, hall⟩ := ih hbound (by omega)
      refine ⟨(offset, e) :: found, ⟨rfl, next, hsome, hvisits⟩,
        yields_cons_iff.mpr ⟨next, hsome, hyields⟩, ?_, ?_, ?_⟩
      · rw [List.length_cons]
        omega
      · refine List.pairwise_cons.mpr ⟨?_, hsorted⟩
        intro start hstart
        obtain ⟨p, hp, rfl⟩ := List.mem_map.mp hstart
        exact hlt.trans_le (hall p hp).1
      · intro p hp
        rcases List.mem_cons.mp hp with rfl | hp
        · exact ⟨le_rfl, hat⟩
        · exact ⟨hlt.le.trans (hall p hp).1, (hall p hp).2⟩

/-- Of any buffer below 2 GiB the iterator yields entries that lie in it, one behind the other and
not more than it has bytes, and then nothing for ever; it never panics. The offsets are those of
its calls. -/
theorem ea_entries_bounded (hlen : buffer.length < 2 ^ 31) :
    ∃ found : List (Nat × EaEntry), Visits buffer 0 found ∧
      Yields buffer 0 (found.map Prod.snd) ∧ found.length ≤ buffer.length ∧
      (found.map Prod.fst).Pairwise (· < ·) ∧ ∀ p ∈ found, EaAt buffer p.1 p.2 := by
  obtain ⟨found, hvisits, hyields, hcount, hsorted, hall⟩ :=
    exists_yields hlen (Nat.two_pow_pos 33) le_rfl
  exact ⟨found, hvisits, hyields, hcount, hsorted, fun p hp ↦ (hall p hp).2⟩

/-- An entry that points behind the buffer is the last one. -/
theorem ea_entries_bounded_sample :
    [16, 0, 0, 0, 0, 1, 0, 0, 255, 0, 0, 0].length < 2 ^ 31 ∧
      ∃ found : List (Nat × EaEntry), Visits [16, 0, 0, 0, 0, 1, 0, 0, 255, 0, 0, 0] 0 found ∧
        Yields [16, 0, 0, 0, 0, 1, 0, 0, 255, 0, 0, 0] 0 (found.map Prod.snd) ∧
        found.length ≤ [16, 0, 0, 0, 0, 1, 0, 0, 255, 0, 0, 0].length ∧
        (found.map Prod.fst).Pairwise (· < ·) ∧
        ∀ p ∈ found, EaAt [16, 0, 0, 0, 0, 1, 0, 0, 255, 0, 0, 0] p.1 p.2 :=
  ⟨by decide, ea_entries_bounded (by decide)⟩

/-! ### The writer -/

/-- `EaWriteError`. -/
inductive EaWriteError where
  | nameTooLong
  | valueTooLong
  | bufferTooSmall
deriving DecidableEq, Repr

/-- `copy_from_slice` into a range of the buffer. -/
def putAt? (buffer : Bytes) (offset : Nat) (bytes : Bytes) : Option Bytes :=
  if offset + bytes.length ≤ buffer.length then
    some (buffer.take offset ++ (bytes ++ buffer.drop (offset + bytes.length)))
  else none

/-- `ea_entry_padded_size`. -/
def eaEntryPaddedSize (e : EaEntry) : Nat := (8 + (utf8 e.name).length + e.value.length + 3) / 4 * 4

/-- The bytes of an entry, with the zeros behind it. -/
def eaRecord (nextOffset : Nat) (e : EaEntry) : Bytes :=
  leBytes 4 nextOffset ++ ([e.flags, UInt8.ofNat (utf8 e.name).length] ++
    (leBytes 2 e.value.length ++ (utf8 e.name ++ (e.value ++
      List.replicate (eaEntryPaddedSize e - (8 + (utf8 e.name).length + e.value.length)) 0))))

/-- `write_ea_entry`: the buffer and the cursor afterwards. -/
def writeEaEntry (buffer : Bytes) (cursor : Nat) (e : EaEntry) :
    Option (Except EaWriteError (Bytes × Nat)) :=
  if (utf8 e.name).length > 255 then some (.error .nameTooLong)
  else if e.value.length > 65535 then some (.error .valueTooLong)
  else
    let nextOffset := (cursor + eaEntryPaddedSize e) % 2 ^ 32
    if nextOffset > buffer.length then some (.error .bufferTooSmall)
    else (putAt? buffer cursor (eaRecord nextOffset e)).map (fun out ↦ .ok (out, nextOffset))

/-- `write_ea_terminator`. -/
def writeEaTerminator (buffer : Bytes) (cursor : Nat) :
    Option (Except EaWriteError (Bytes × Nat)) :=
  if cursor + 4 > buffer.length then some (.error .bufferTooSmall)
  else (putAt? buffer cursor (leBytes 4 0)).map (fun out ↦ .ok (out, (cursor + 4) % 2 ^ 32))

/-- Successive entries and the terminator. -/
def writeEa (buffer : Bytes) (cursor : Nat) : List EaEntry →
    Option (Except EaWriteError (Bytes × Nat))
  | [] => writeEaTerminator buffer cursor
  | e :: es => do
    match ← writeEaEntry buffer cursor e with
    | .error err => return .error err
    | .ok (buffer, cursor) => writeEa buffer cursor es

/-- What is written is read back. -/
def EaRoundTrip (buffer : Bytes) (es : List EaEntry) : Prop :=
  ∀ out cursor, writeEa buffer 0 es = some (.ok (out, cursor)) → Yields (out.take cursor) 0 es

/-- What the writer leaves in front of its cursor. -/
def eaRecords (cursor : Nat) : List EaEntry → Bytes
  | [] => leBytes 4 0
  | e :: es =>
    eaRecord (cursor + eaEntryPaddedSize e) e ++ eaRecords (cursor + eaEntryPaddedSize e) es

/-- An entry the writer accepts. -/
structure EaFits (e : EaEntry) : Prop where
  name : (utf8 e.name).length ≤ 255
  value : e.value.length ≤ 65535

theorem EaFits.size_le (h : EaFits e) : eaEntryPaddedSize e ≤ 65804 := by
  have hname := h.name
  have hvalue := h.value
  unfold eaEntryPaddedSize
  omega

@[simp] theorem length_eaRecord (nextOffset : Nat) (e : EaEntry) :
    (eaRecord nextOffset e).length = eaEntryPaddedSize e := by
  simp only [eaRecord, List.length_append, length_leBytes, List.length_cons, List.length_nil,
    List.length_replicate, eaEntryPaddedSize]
  omega

private theorem take_putAt? {bytes : Bytes} (h : putAt? buffer offset bytes = some out)
    (hstop : stop = offset + bytes.length) :
    out.take stop = buffer.take offset ++ bytes ∧ out.length = buffer.length := by
  unfold putAt? at h
  split at h <;> cases h
  rename_i hle
  have hfront : (buffer.take offset ++ bytes).length = stop := by
    rw [List.length_append, List.length_take]
    omega
  refine ⟨?_, ?_⟩
  · rw [← List.append_assoc, ← hfront, List.take_left]
  · simp only [List.length_append, List.length_take, List.length_drop]
    omega

/-- An accepted entry, while the cursor does not wrap. -/
theorem writeEaEntry_ok (h : writeEaEntry buffer cursor e = some (.ok (out, stop)))
    (hcursor : cursor < 2 ^ 31) :
    EaFits e ∧ stop = cursor + eaEntryPaddedSize e ∧ stop ≤ buffer.length ∧
      out.take stop = buffer.take cursor ++ eaRecord stop e ∧ out.length = buffer.length := by
  unfold writeEaEntry at h
  split at h
  · cases h
  next hname =>
  split at h
  · cases h
  next hvalue =>
  have hfits : EaFits e := ⟨Nat.le_of_not_lt hname, Nat.le_of_not_lt hvalue⟩
  have hsize := hfits.size_le
  simp only [Nat.mod_eq_of_lt (show cursor + eaEntryPaddedSize e < 2 ^ 32 by omega)] at h
  split at h
  · cases h
  next hroom =>
  obtain ⟨out, hput, heq⟩ := Option.map_eq_some_iff.mp h
  cases heq
  obtain ⟨htake, hlen⟩ := take_putAt? hput (by rw [length_eaRecord])
  exact ⟨hfits, rfl, Nat.le_of_not_lt hroom, htake, hlen⟩

theorem writeEa_ok (h : writeEa buffer cursor es = some (.ok (out, stop)))
    (hcursor : cursor + 65804 * es.length < 2 ^ 31) :
    (∀ e ∈ es, EaFits e) ∧ out.take stop = buffer.take cursor ++ eaRecords cursor es := by
  induction es generalizing buffer cursor with
  | nil =>
    refine ⟨fun e he ↦ absurd he List.not_mem_nil, ?_⟩
    simp only [writeEa, writeEaTerminator] at h
    split at h
    · cases h
    · obtain ⟨out, hput, heq⟩ := Option.map_eq_some_iff.mp h
      cases heq
      refine (take_putAt? hput ?_).1
      rw [length_leBytes, Nat.mod_eq_of_lt (by simp at hcursor; omega)]
  | cons e es ih =>
    obtain ⟨r, hentry, hrest⟩ := Option.bind_eq_some_iff.mp h
    cases r with
    | error err => cases hrest
    | ok r =>
      obtain ⟨buffer', cursor'⟩ := r
      rw [List.length_cons] at hcursor
      obtain ⟨hfits, rfl, hroom, htake, hlen⟩ := writeEaEntry_ok hentry (by omega)
      have hsize := hfits.size_le
      obtain ⟨hall, hout⟩ := ih hrest (by omega)
      refine ⟨List.forall_mem_cons.mpr ⟨hfits, hall⟩, ?_⟩
      rw [hout, htake, eaRecords, List.append_assoc]

private theorem eaHeader_append (front bytes : Bytes) :
    eaHeader (front ++ bytes) front.length = eaHeader bytes 0 := by
  have hget : ∀ i, (front ++ bytes)[front.length + i]? = bytes[i]? := fun i ↦ by
    rw [List.getElem?_append_right (Nat.le_add_right _ _), Nat.add_sub_cancel_left]
  have hfirst := slice?_append_right front bytes 0 4
  have hlast := slice?_append_right front bytes 6 8
  rw [Nat.add_zero] at hfirst
  simp [eaHeader, hfirst, hlast, hget]

private theorem eaHeader_record {rest : Bytes} (hfits : EaFits e) (hnext : next < 2 ^ 32) :
    eaHeader (eaRecord next e ++ rest) 0 =
      some ⟨next, e.flags, (utf8 e.name).length, e.value.length⟩ := by
  have hname := hfits.name
  have hvalue := hfits.value
  have hfirst : slice? (eaRecord next e ++ rest) 0 4 = some (leBytes 4 next) := by
    exact @slice?_append _ [] (leBytes 4 next) _ 0 4 rfl rfl
  have hlast : slice? (eaRecord next e ++ rest) 6 8 = some (leBytes 2 e.value.length) := by
    exact (slice?_append_right (leBytes 4 next) _ 2 4).trans
      ((slice?_append_right [_, _] _ 0 2).trans
        (@slice?_append _ [] (leBytes 2 e.value.length) _ 0 2 rfl rfl))
  have hflags : (eaRecord next e ++ rest)[4]? = some e.flags := rfl
  have hcount : (eaRecord next e ++ rest)[5]? = some (UInt8.ofNat (utf8 e.name).length) := rfl
  simp only [eaHeader, Nat.zero_add, hfirst, hflags, hcount, hlast, Option.bind_eq_bind,
    Option.bind_some, leNat_leBytes_of_lt (show next < 256 ^ 4 by omega),
    leNat_leBytes_of_lt (show e.value.length < 256 ^ 2 by omega), UInt8.toNat_ofNat',
    Nat.mod_eq_of_lt (show (utf8 e.name).length < 2 ^ 8 by omega)]
  rfl

/-- The name and the value of a written entry. -/
private theorem eaRecord_body (front rest : Bytes) (next : Nat) (e : EaEntry) :
    let buffer := front ++ (eaRecord next e ++ rest)
    let nameStart := front.length + 8
    let valueStart := nameStart + (utf8 e.name).length
    slice? buffer nameStart valueStart = some (utf8 e.name) ∧
      slice? buffer valueStart (valueStart + e.value.length) = some e.value := by
  intro buffer nameStart valueStart
  obtain ⟨tail, hrecord⟩ : ∃ tail, buffer = (front ++ (leBytes 4 next ++ [e.flags,
      UInt8.ofNat (utf8 e.name).length] ++ leBytes 2 e.value.length)) ++
      (utf8 e.name ++ (e.value ++ tail)) := by
    refine ⟨List.replicate (eaEntryPaddedSize e -
      (8 + (utf8 e.name).length + e.value.length)) 0 ++ rest, ?_⟩
    simp [buffer, eaRecord]
  constructor
  · rw [hrecord]
    refine slice?_append _ ?_ ?_ <;> simp [nameStart, valueStart]
  · rw [hrecord, ← List.append_assoc]
    refine slice?_append _ ?_ ?_ <;> simp [nameStart, valueStart] <;> omega

/-- The parser finds a written entry, and moves on by the offset stored in it. -/
theorem eaNext_record {front rest : Bytes} (hfits : EaFits e) (hnext : 0 < next ∧ next < 2 ^ 32)
    (hfront : front.length < 2 ^ 32) :
    eaNext (front ++ (eaRecord next e ++ rest)) front.length =
      some (some (e, front.length + next)) := by
  have hname := hfits.name
  have hvalue := hfits.value
  have hsize : 8 + (utf8 e.name).length + e.value.length ≤ eaEntryPaddedSize e := by
    unfold eaEntryPaddedSize
    omega
  have hlen : (front ++ (eaRecord next e ++ rest)).length =
      front.length + eaEntryPaddedSize e + rest.length := by
    simp [Nat.add_assoc]
  obtain ⟨hnames, hvalues⟩ := eaRecord_body front rest next e
  unfold eaNext eaBody eaAdvance
  rw [addUsize_of_lt (by omega), eaHeader_append, eaHeader_record hfits hnext.2]
  simp only [Option.bind_eq_bind, Option.bind_some, hlen]
  rw [if_neg (by omega), addUsize_of_lt (by omega), Option.bind_some, addUsize_of_lt (by omega)]
  simp only [Option.bind_some]
  rw [if_neg (by omega), hnames, hvalues, if_neg (by omega), addUsize_of_lt (by omega)]
  simp [fromUtf8_utf8]

private theorem eaNext_end (h : buffer.length < offset + 8) (hoffset : offset < 2 ^ 33) :
    eaNext buffer offset = some none := by
  unfold eaNext
  rw [addUsize_of_lt (by omega)]
  exact if_pos h

private theorem eaEntryPaddedSize_ge (e : EaEntry) :
    8 + (utf8 e.name).length + e.value.length ≤ eaEntryPaddedSize e ∧
      eaEntryPaddedSize e ≤ 8 + (utf8 e.name).length + e.value.length + 3 := by
  unfold eaEntryPaddedSize
  omega

/-- The first two entries are found. The second then leads past the third, by the length of the
first. -/
private theorem yields_two_iff {a b : EaEntry} {zs : List EaEntry} (ha : EaFits a) (hb : EaFits b) :
    Yields (eaRecords 0 (a :: b :: es)) 0 (a :: b :: zs) ↔
      Yields (eaRecords 0 (a :: b :: es))
        (eaEntryPaddedSize a + (eaEntryPaddedSize a + eaEntryPaddedSize b)) zs := by
  have hsizea := ha.size_le
  have hsizeb := hb.size_le
  have hposa := eaEntryPaddedSize_ge a
  have hfirst : eaNext (eaRecords 0 (a :: b :: es)) 0 = some (some (a, eaEntryPaddedSize a)) := by
    simpa [eaRecords] using @eaNext_record (eaEntryPaddedSize a) a []
      (eaRecords (eaEntryPaddedSize a) (b :: es)) ha (by omega) (by simp)
  have hsecond : eaNext (eaRecords 0 (a :: b :: es)) (eaEntryPaddedSize a) =
      some (some (b, eaEntryPaddedSize a + (eaEntryPaddedSize a + eaEntryPaddedSize b))) := by
    simpa [eaRecords] using @eaNext_record (eaEntryPaddedSize a + eaEntryPaddedSize b) b
      (eaRecord (eaEntryPaddedSize a) a) (eaRecords (eaEntryPaddedSize a + eaEntryPaddedSize b) es)
      hb (by omega) (by rw [length_eaRecord]; omega)
  rw [yields_cons_of hfirst, yields_cons_of hsecond]

private theorem eaRoundTrip_of_le_two (hlen : es.length ≤ 2) : EaRoundTrip buffer es := by
  intro out stop h
  obtain ⟨hfits, hout⟩ := writeEa_ok h (by omega)
  rw [hout, List.take_zero, List.nil_append]
  match es, hlen with
  | [], _ => exact yields_nil_iff.mpr (eaNext_end (by simp [eaRecords]) (by omega))
  | [a], _ =>
    have ha := hfits a (by simp)
    have hsize := ha.size_le
    have hpos := eaEntryPaddedSize_ge a
    have hfirst : eaNext (eaRecords 0 [a]) 0 = some (some (a, eaEntryPaddedSize a)) := by
      simpa [eaRecords] using @eaNext_record (eaEntryPaddedSize a) a [] (leBytes 4 0) ha
        (by omega) (by simp)
    rw [yields_cons_of hfirst]
    exact yields_nil_iff.mpr (eaNext_end (by simp [eaRecords]) (by omega))
  | [a, b], _ =>
    have hsizea := (hfits a (by simp)).size_le
    have hsizeb := (hfits b (by simp)).size_le
    rw [yields_two_iff (hfits a (by simp)) (hfits b (by simp))]
    exact yields_nil_iff.mpr (eaNext_end (by simp [eaRecords]; omega) (by omega))

/-- The third entry does not fit behind the place the second one leads to. -/
private theorem not_yields_three {a b c : EaEntry} (ha : EaFits a) (hb : EaFits b)
    (hc : EaFits c) : ¬Yields (eaRecords 0 [a, b, c]) 0 [a, b, c] := by
  rw [yields_two_iff ha hb, yields_cons_iff]
  rintro ⟨next, hnext, -⟩
  have hsizea := ha.size_le
  have hsizeb := hb.size_le
  have hsizec := hc.size_le
  have hlen : (eaRecords 0 [a, b, c]).length =
      eaEntryPaddedSize a + (eaEntryPaddedSize b + (eaEntryPaddedSize c + 4)) := by
    simp [eaRecords]
  have hbound : eaEntryPaddedSize a + (eaEntryPaddedSize a + eaEntryPaddedSize b) < 2 ^ 33 := by
    omega
  rcases eaNext_cases (show (eaRecords 0 [a, b, c]).length < 2 ^ 31 by omega) hbound with
    hnone | ⟨e, next', hsome, hat, -⟩
  · rw [hnone] at hnext
    cases hnext
  · rw [hsome] at hnext
    cases hnext
    have hfits := hat.fits
    have hposa := eaEntryPaddedSize_ge a
    have hposc := eaEntryPaddedSize_ge c
    omega

private theorem writeEa_room (h : writeEa buffer cursor es = some (.ok r))
    (hcursor : cursor < 2 ^ 31) : ∃ r', writeEaTerminator buffer cursor = some (.ok r') := by
  cases es with
  | nil => exact ⟨r, h⟩
  | cons e es =>
    obtain ⟨r', hentry, hrest⟩ := Option.bind_eq_some_iff.mp h
    cases r' with
    | error err => cases hrest
    | ok r' =>
      obtain ⟨-, hstop, hroom, -⟩ := writeEaEntry_ok hentry hcursor
      have hpos := eaEntryPaddedSize_ge e
      unfold writeEaTerminator putAt?
      rw [length_leBytes, if_neg (by omega), if_pos (by omega)]
      exact ⟨_, rfl⟩

private theorem writeEa_front {rest : List EaEntry}
    (h : writeEa buffer cursor (es ++ rest) = some (.ok r))
    (hcursor : cursor + 65804 * es.length < 2 ^ 31) :
    ∃ r', writeEa buffer cursor es = some (.ok r') := by
  induction es generalizing buffer cursor with
  | nil => exact writeEa_room h (by simpa using hcursor)
  | cons e es ih =>
    obtain ⟨r', hentry, hrest⟩ := Option.bind_eq_some_iff.mp h
    cases r' with
    | error err => cases hrest
    | ok r' =>
      rw [List.length_cons] at hcursor
      obtain ⟨hfits, hstop, -⟩ := writeEaEntry_ok hentry (by omega)
      have hsize := hfits.size_le
      rw [writeEa, hentry]
      exact ih hrest (by omega)

/-- An accepted list and every list it starts with are read back exactly if it has at most two
entries. -/
theorem ea_round_trip_iff {es : List EaEntry} {r : Bytes × Nat}
    (h : writeEa buffer 0 es = some (.ok r)) :
    (∀ k, EaRoundTrip buffer (es.take k)) ↔ es.length ≤ 2 := by
  constructor
  · intro hall
    by_contra hlen
    match es, hlen with
    | [], hlen | [_], hlen | [_, _], hlen => simp at hlen
    | a :: b :: c :: rest, _ =>
      have hfront : writeEa buffer 0 ([a, b, c] ++ rest) = some (.ok r) := h
      obtain ⟨⟨out, stop⟩, hthree⟩ := writeEa_front hfront (by simp)
      obtain ⟨hfits, hout⟩ := writeEa_ok hthree (by simp)
      have hyields := hall 3 out stop hthree
      rw [hout, ] at hyields
      exact not_yields_three (hfits a (by simp)) (hfits b (by simp)) (hfits c (by simp)) hyields
  · intro hlen k
    exact eaRoundTrip_of_le_two ((List.length_take_le' k es).trans hlen)

/-- Three entries in a buffer of 64 bytes. -/
theorem ea_round_trip_iff_sample :
    (∃ r, writeEa (List.replicate 64 7) 0 [⟨[], [1], 0⟩, ⟨[], [2], 0⟩, ⟨[], [3], 0⟩] =
      some (.ok r)) ∧
      ¬∀ k, EaRoundTrip (List.replicate 64 7)
        (([⟨[], [1], 0⟩, ⟨[], [2], 0⟩, ⟨[], [3], 0⟩] : List EaEntry).take k) := by
  have hwrite : ∃ r, writeEa (List.replicate 64 7) 0
      [⟨[], [1], 0⟩, ⟨[], [2], 0⟩, ⟨[], [3], 0⟩] = some (.ok r) := ⟨_, rfl⟩
  refine ⟨hwrite, ?_⟩
  obtain ⟨r, hr⟩ := hwrite
  rw [ea_round_trip_iff hr]
  decide

/-- The third of three entries is lost: the second leads to the end of the buffer. -/
theorem third_entry_is_lost :
    ¬EaRoundTrip (List.replicate 64 7) [⟨['a'], [1], 0⟩, ⟨['b'], [2], 0⟩, ⟨['c'], [3], 0⟩] := by
  intro h
  have hcalls := h _ _ rfl 3
  revert hcalls
  decide

end Mntrs

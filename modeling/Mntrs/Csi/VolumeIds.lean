import Mathlib.Data.Set.Operations
import Mntrs.Csi.Staging

/-!
# Volume ids

A volume id is its storage URL with the characters that a name cannot have written as escapes.
Models `decode_volume_id` (`src/csi/mntrs-csi/src/main.rs:52-77`), which works on bytes, against
`encode_volume_id`.
-/

namespace Mntrs.Csi

open Base

/-- The value of a hexadecimal digit. -/
def hexDigit (c : Char) : Option Nat :=
  if '0' ≤ c ∧ c ≤ '9' then some (c.toNat - '0'.toNat)
  else if 'a' ≤ c ∧ c ≤ 'f' then some (c.toNat - 'a'.toNat + 10)
  else if 'A' ≤ c ∧ c ≤ 'F' then some (c.toNat - 'A'.toNat + 10)
  else none

/-- `u8::from_str_radix(_, 16)` on a text of two bytes: a plus sign is taken for a sign. -/
def fromStrRadix16 : Text → Option UInt8
  | [a, b] =>
    if a = '+' then (hexDigit b).map UInt8.ofNat
    else (hexDigit a).bind (fun high ↦ (hexDigit b).map (fun low ↦ UInt8.ofNat (16 * high + low)))
  | _ => none

/-- The bytes of an escape: one byte, or the text as it is if it does not spell one. -/
def escapeBytes (hex : Text) : Bytes :=
  match if (utf8 hex).length = 2 then fromStrRadix16 hex else none with
  | some b => [b]
  | none => utf8 ('_' :: hex)

/-- The loop of `decode_volume_id`. -/
def decodeBytes : Text → Bytes
  | [] => []
  | c :: rest =>
    if c = '_' then escapeBytes (rest.take 2) ++ decodeBytes (rest.drop 2)
    else utf8 [c] ++ decodeBytes rest
termination_by text => text.length
decreasing_by
  all_goals
    simp only [List.length_drop, List.length_cons]
    omega

/-- `decode_volume_id`; `lossy` is `String::from_utf8_lossy`. -/
def decodeVolumeId (lossy : Bytes → Text) (volumeId : Text) : Text :=
  (fromUtf8 (decodeBytes volumeId)).getD (lossy (decodeBytes volumeId))

/-- The characters that are written as escapes. -/
def isEscaped (c : Char) : Bool := c = ':' || c = '/' || c = '_'

theorem encodeVolumeId_cons (c : Char) (s : Text) :
    encodeVolumeId (c :: s) = encodeVolumeId [c] ++ encodeVolumeId s := by
  simp [encodeVolumeId]

theorem encodeVolumeId_of_not_escaped {c : Char} (h : isEscaped c = false) :
    encodeVolumeId [c] = [c] := by
  simp only [isEscaped, Bool.or_eq_false_iff, decide_eq_false_iff_not] at h
  simp [encodeVolumeId, h.1.1, h.1.2, h.2]

/-- The decoder comes to the end of what a character is written as with the character's bytes. -/
theorem decodeBytes_encode_append (c : Char) (rest : Text) :
    decodeBytes (encodeVolumeId [c] ++ rest) = utf8 [c] ++ decodeBytes rest := by
  by_cases h : isEscaped c
  · simp only [isEscaped, Bool.or_eq_true, decide_eq_true_eq] at h
    rcases h with (rfl | rfl) | rfl
    all_goals
      rw [show encodeVolumeId [_] ++ rest = '_' :: _ :: _ :: rest from rfl, decodeBytes]
      rfl
  · have hplain : isEscaped c = false := by simpa using h
    rw [encodeVolumeId_of_not_escaped hplain, List.singleton_append, decodeBytes, if_neg]
    rintro rfl
    cases hplain

theorem decodeBytes_encodeVolumeId (s : Text) : decodeBytes (encodeVolumeId s) = utf8 s := by
  induction s with
  | nil => simp [encodeVolumeId, decodeBytes, utf8]
  | cons c s ih =>
    rw [encodeVolumeId_cons, decodeBytes_encode_append, ih]
    simp [utf8]

theorem decodeVolumeId_encodeVolumeId (lossy : Bytes → Text) (s : Text) :
    decodeVolumeId lossy (encodeVolumeId s) = s := by
  rw [decodeVolumeId, decodeBytes_encodeVolumeId, fromUtf8_utf8]
  rfl

/-- Two URLs never share a volume id. -/
theorem encodeVolumeId_injective : Function.Injective encodeVolumeId :=
  Function.LeftInverse.injective (decodeVolumeId_encodeVolumeId (fun _ ↦ []))

/-- Neither a colon nor a slash is left. -/
theorem notMem_encodeVolumeId {x : Char} (hx : x = ':' ∨ x = '/') (s : Text) :
    x ∉ encodeVolumeId s := by
  induction s with
  | nil => simp [encodeVolumeId]
  | cons c s ih =>
    rw [encodeVolumeId_cons, List.mem_append, not_or]
    refine ⟨?_, ih⟩
    by_cases h : isEscaped c
    · simp only [isEscaped, Bool.or_eq_true, decide_eq_true_eq] at h
      rcases hx with rfl | rfl <;> rcases h with (rfl | rfl) | rfl <;> decide
    · have hplain : isEscaped c = false := by simpa using h
      rw [encodeVolumeId_of_not_escaped hplain, List.mem_singleton]
      rintro rfl
      rcases hx with rfl | rfl <;> cases hplain

/-- A URL has a colon, so its id is a name with an escape in it. -/
theorem properName_encodeVolumeId {s : Text} (h : ':' ∈ s) : ProperName (encodeVolumeId s) := by
  have hmem : '_' ∈ encodeVolumeId s := List.mem_flatMap.mpr ⟨':', h, by simp⟩
  refine ⟨?_, ?_, ?_, notMem_encodeVolumeId (.inr rfl) s⟩
  all_goals
    intro heq
    rw [heq] at hmem
    simp at hmem

/-- A volume id is decoded to the URL it was made of, whatever the URL is. So different URLs have
different ids and cache directories, and an id has no colon and no slash. -/
theorem volume_ids_faithful (lossy : Bytes → Text) (base : Text) (opts : Text → Option Text)
    (cwd : Dir) :
    (∀ s, decodeVolumeId lossy (encodeVolumeId s) = s) ∧
    Function.Injective encodeVolumeId ∧
    Function.Injective (fun s ↦ stageCacheDir (some base) s opts) ∧
    Set.InjOn (fun s ↦ (stageCacheDir (some base) s opts).map (resolve cwd)) {s | ':' ∈ s} ∧
    ∀ s, ':' ∉ encodeVolumeId s ∧ '/' ∉ encodeVolumeId s := by
  refine ⟨decodeVolumeId_encodeVolumeId lossy, encodeVolumeId_injective, ?_, ?_,
    fun s ↦ ⟨notMem_encodeVolumeId (.inl rfl) s, notMem_encodeVolumeId (.inr rfl) s⟩⟩
  · intro s t h
    simp only [stageCacheDir, Option.some.injEq, List.append_cancel_left_eq, List.cons.injEq,
      true_and] at h
    exact encodeVolumeId_injective h
  · intro s hs t ht h
    have hs := properName_encodeVolumeId hs
    have ht := properName_encodeVolumeId ht
    simp only [stageCacheDir, Option.map_some, Option.some.injEq,
      resolve_append_name cwd base hs.slash, resolve_append_name cwd base ht.slash, hs.enter,
      ht.enter, List.append_cancel_left_eq, List.cons.injEq, and_true] at h
    exact encodeVolumeId_injective h

end Mntrs.Csi

import Mntrs.Base.LittleEndian

/-!
# UTF-16

The units of a text, and the text of some units with the replacement character for what is no
text. What was encoded is decoded to itself.
-/

namespace Mntrs.Base

/-- The units of a character. -/
def encodeUtf16Char (c : Char) : List Nat :=
  if c.toNat < 0x10000 then [c.toNat]
  else [0xD800 + (c.toNat - 0x10000) / 0x400, 0xDC00 + (c.toNat - 0x10000) % 0x400]

/-- The units of a text. -/
def encodeUtf16 (t : List Char) : List Nat := t.flatMap encodeUtf16Char

/-- The character of a unit that is not the first of a pair. -/
def decodeUtf16Unit (u : Nat) : Char :=
  if 0xD800 ≤ u ∧ u < 0xE000 then '�' else Char.ofNat u

/-- Two units that spell one character. -/
def IsSurrogatePair (u v : Nat) : Prop := (0xD800 ≤ u ∧ u < 0xDC00) ∧ 0xDC00 ≤ v ∧ v < 0xE000

instance (u v : Nat) : Decidable (IsSurrogatePair u v) := inferInstanceAs (Decidable (_ ∧ _))

/-- `String::from_utf16_lossy`. -/
def decodeUtf16Lossy : List Nat → List Char
  | [] => []
  | [u] => [decodeUtf16Unit u]
  | u :: v :: us =>
    if IsSurrogatePair u v then
      Char.ofNat (0x10000 + (u - 0xD800) * 0x400 + (v - 0xDC00)) :: decodeUtf16Lossy us
    else decodeUtf16Unit u :: decodeUtf16Lossy (v :: us)

/-- A unit that is no surrogate is a character. -/
theorem decodeUtf16Lossy_cons {u : Nat} (h : u < 0xD800 ∨ 0xE000 ≤ u) (us : List Nat) :
    decodeUtf16Lossy (u :: us) = Char.ofNat u :: decodeUtf16Lossy us := by
  have hunit : decodeUtf16Unit u = Char.ofNat u := if_neg (by omega)
  cases us with
  | nil => simp [decodeUtf16Lossy, hunit]
  | cons v us =>
    have hpair : ¬IsSurrogatePair u v := by
      unfold IsSurrogatePair
      omega
    rw [decodeUtf16Lossy, if_neg hpair, hunit]

private theorem decodeUtf16Lossy_char (c : Char) (us : List Nat) :
    decodeUtf16Lossy (encodeUtf16Char c ++ us) = c :: decodeUtf16Lossy us := by
  have hvalid : c.toNat < 0xD800 ∨ 0xDFFF < c.toNat ∧ c.toNat < 0x110000 := c.valid
  unfold encodeUtf16Char
  split
  case isTrue hshort =>
    rw [List.cons_append, List.nil_append, decodeUtf16Lossy_cons (by omega), Char.ofNat_toNat]
  case isFalse hlong =>
    have hpair : IsSurrogatePair (0xD800 + (c.toNat - 0x10000) / 0x400)
        (0xDC00 + (c.toNat - 0x10000) % 0x400) := by
      unfold IsSurrogatePair
      omega
    have hsum : 0x10000 + (0xD800 + (c.toNat - 0x10000) / 0x400 - 0xD800) * 0x400 +
        (0xDC00 + (c.toNat - 0x10000) % 0x400 - 0xDC00) = c.toNat := by omega
    rw [List.cons_append, List.cons_append, List.nil_append, decodeUtf16Lossy, if_pos hpair, hsum,
      Char.ofNat_toNat]

/-- What was encoded is decoded to itself. -/
theorem decodeUtf16Lossy_encodeUtf16 (t : List Char) : decodeUtf16Lossy (encodeUtf16 t) = t := by
  induction t with
  | nil => rfl
  | cons c t ih =>
    rw [encodeUtf16, List.flatMap_cons, decodeUtf16Lossy_char]
    exact congrArg (c :: ·) ih

/-- Units below the surrogates are decoded one by one. -/
theorem decodeUtf16Lossy_of_lt {us : List Nat} (h : ∀ u ∈ us, u < 0xD800) :
    decodeUtf16Lossy us = us.map Char.ofNat := by
  induction us with
  | nil => rfl
  | cons u us ih =>
    rw [decodeUtf16Lossy_cons (.inl (h u (by simp))), ih fun v hv ↦ h v (by simp [hv]),
      List.map_cons]

theorem length_le_length_encodeUtf16 (t : List Char) : t.length ≤ (encodeUtf16 t).length := by
  induction t with
  | nil => simp
  | cons c t ih =>
    have hone : 1 ≤ (encodeUtf16Char c).length := by
      unfold encodeUtf16Char
      split <;> simp
    rw [encodeUtf16, List.flatMap_cons, List.length_append, List.length_cons]
    exact Nat.add_comm .. ▸ Nat.add_le_add hone ih

/-- Units as bytes, the low byte first. -/
def utf16Bytes (us : List Nat) : List UInt8 := us.flatMap (leBytes 2)

/-- The units that bytes spell; an odd byte at the end is dropped. -/
def leUnits : List UInt8 → List Nat
  | a :: b :: bs => leNat [a, b] :: leUnits bs
  | _ => []

/-- Units of 16 bits are read back. -/
theorem leUnits_utf16Bytes {us : List Nat} (h : ∀ u ∈ us, u < 0x10000) :
    leUnits (utf16Bytes us) = us := by
  induction us with
  | nil => rfl
  | cons u us ih =>
    have hread : leNat (leBytes 2 u) = u := leNat_leBytes_of_lt (h u (by simp))
    change leNat (leBytes 2 u) :: leUnits (utf16Bytes us) = u :: us
    rw [hread, ih fun v hv ↦ h v (by simp [hv])]

theorem length_utf16Bytes (us : List Nat) : (utf16Bytes us).length = 2 * us.length := by
  simp [utf16Bytes, List.length_flatMap, mul_comm]

theorem encodeUtf16_lt {t : List Char} {u : Nat} (h : u ∈ encodeUtf16 t) : u < 0x10000 := by
  obtain ⟨c, -, hu⟩ := List.mem_flatMap.mp h
  have hvalid : c.toNat < 0xD800 ∨ 0xDFFF < c.toNat ∧ c.toNat < 0x110000 := c.valid
  unfold encodeUtf16Char at hu
  split at hu
  case isTrue hshort =>
    rw [List.mem_singleton] at hu
    omega
  case isFalse hlong =>
    simp only [List.mem_cons, List.not_mem_nil, or_false] at hu
    omega

end Mntrs.Base

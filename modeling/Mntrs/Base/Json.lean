import Mntrs.Base.Numerals
import Mntrs.Base.Segments

/-!
# Flat JSON objects

A reader of JSON objects whose values are strings and whole numbers, without space between the
tokens. What it accepts is JSON: the escapes, the characters that must be escaped and the numbers
are those of the grammar. Objects that are written with any escaping that is read back character by
character are read back as a whole.
-/

namespace Mntrs.Base

/-- The character a letter after a backslash stands for. -/
def shortEscape : Char → Option Char
  | '"' => some '"'
  | '\\' => some '\\'
  | '/' => some '/'
  | 'b' => some '\x08'
  | 'f' => some '\x0c'
  | 'n' => some '\n'
  | 'r' => some '\r'
  | 't' => some '\t'
  | _ => none

/-- The first character of the text of a string. A character outside the basic plane may be
written as two surrogates; a quote, a backslash and control characters only with an escape. -/
def readChar : List Char → Option (Char × List Char)
  | '\\' :: 'u' :: a :: b :: c :: d :: rest => do
    let unit ← readDigits 16 0 [a, b, c, d]
    if 0xD800 ≤ unit ∧ unit < 0xDC00 then
      match rest with
      | '\\' :: 'u' :: a :: b :: c :: d :: rest => do
        let low ← readDigits 16 0 [a, b, c, d]
        if 0xDC00 ≤ low ∧ low < 0xE000 then
          some (Char.ofNat (0x10000 + (unit - 0xD800) * 0x400 + (low - 0xDC00)), rest)
        else none
      | _ => none
    else if 0xDC00 ≤ unit ∧ unit < 0xE000 then none
    else some (Char.ofNat unit, rest)
  | '\\' :: c :: rest => (shortEscape c).map (·, rest)
  | c :: rest => if c = '"' ∨ c = '\\' ∨ c.toNat < 0x20 then none else some (c, rest)
  | [] => none

/-- The text of a string up to its closing quote. -/
def readString : Nat → List Char → Option (List Char × List Char)
  | _, '"' :: rest => some ([], rest)
  | 0, _ => none
  | fuel + 1, text => do
    let (c, rest) ← readChar text
    let (s, rest) ← readString fuel rest
    some (c :: s, rest)

/-- A string in its quotes. -/
def readQuoted : List Char → Option (List Char × List Char)
  | '"' :: rest => readString rest.length rest
  | _ => none

/-- Digits without a zero before others. -/
def readNat (text : List Char) : Option (Nat × List Char) :=
  let digits := text.takeWhile Char.isDigit
  if digits = [] ∨ (digits.head? = some '0' ∧ digits ≠ ['0']) then none
  else (readDigits 10 0 digits).map (·, text.dropWhile Char.isDigit)

def readInt : List Char → Option (Int × List Char)
  | '-' :: text => (readNat text).map (fun (n, rest) ↦ (-(n : Int), rest))
  | text => (readNat text).map (fun (n, rest) ↦ ((n : Int), rest))

inductive JsonValue where
  | string (s : List Char)
  | number (n : Int)
  deriving DecidableEq

def readValue : List Char → Option (JsonValue × List Char)
  | '"' :: rest => (readQuoted ('"' :: rest)).map (fun (s, rest) ↦ (.string s, rest))
  | text => (readInt text).map (fun (n, rest) ↦ (.number n, rest))

/-- A key with its value. -/
def readMember (text : List Char) : Option ((List Char × JsonValue) × List Char) := do
  let (key, rest) ← readQuoted text
  match rest with
  | ':' :: rest => do
    let (value, rest) ← readValue rest
    some ((key, value), rest)
  | _ => none

/-- Members up to the closing brace. -/
def readMembers : Nat → List Char → Option (List (List Char × JsonValue) × List Char)
  | 0, _ => none
  | fuel + 1, text => do
    let (member, rest) ← readMember text
    match rest with
    | ',' :: rest => do
      let (members, rest) ← readMembers fuel rest
      some (member :: members, rest)
    | '}' :: rest => some ([member], rest)
    | _ => none

/-- The members of a text that is one object. -/
def decodeObject : List Char → Option (List (List Char × JsonValue))
  | ['{', '}'] => some []
  | '{' :: rest =>
    match readMembers rest.length rest with
    | some (members, []) => some members
    | _ => none
  | _ => none

/-- The four digits of a code below the surrogates. -/
theorem readChar_hex {k : Nat} (hk : k < 0xD800) (rest : List Char) :
    readChar ('\\' :: 'u' :: padded 16 4 k ++ rest) = some (Char.ofNat k, rest) := by
  have hlength : (padded 16 4 k).length = 4 := length_padded (by decide) (by decide) (by omega)
  have hread : readDigits 16 0 (padded 16 4 k) = some k :=
    readDigits_padded_self (by decide) (by decide) 4
  obtain ⟨a, b, c, d, hpadded⟩ : ∃ a b c d, padded 16 4 k = [a, b, c, d] := by
    rcases hdigits : padded 16 4 k with _ | ⟨a, _ | ⟨b, _ | ⟨c, _ | ⟨d, _ | ⟨_, _⟩⟩⟩⟩⟩
    case cons.cons.cons.cons.nil => exact ⟨a, b, c, d, rfl⟩
    all_goals simp [hdigits] at hlength
  rw [hpadded] at hread ⊢
  have hlow : ¬(0xD800 ≤ k ∧ k < 0xDC00) ∧ ¬(0xDC00 ≤ k ∧ k < 0xE000) := by omega
  simp [readChar, hread, hlow]

/-! ## Writing -/

section Render

variable (esc : Char → List Char)

def renderString (s : List Char) : List Char := '"' :: s.flatMap esc ++ ['"']

def renderInt (n : Int) : List Char :=
  if n < 0 then '-' :: Nat.toDigits 10 n.natAbs else Nat.toDigits 10 n.natAbs

def renderValue : JsonValue → List Char
  | .string s => renderString esc s
  | .number n => renderInt n

def renderMember (member : List Char × JsonValue) : List Char :=
  renderString esc member.1 ++ ':' :: renderValue esc member.2

def renderObject (members : List (List Char × JsonValue)) : List Char :=
  '{' :: spell ',' (members.map (renderMember esc)) ++ ['}']

end Render

/-! ## Reading numbers back -/

/-- No digit goes on where the text does. -/
def NoDigit (rest : List Char) : Prop := ∀ c, rest.head? = some c → c.isDigit = false

theorem toDigits_eq_cons (n : Nat) : ∃ d ds, Nat.toDigits 10 n = d :: ds ∧ d.isDigit = true := by
  obtain ⟨d, ds, hcons⟩ := List.exists_cons_of_ne_nil (@Nat.toDigits_ne_nil n 10)
  have hmem : d ∈ Nat.toDigits 10 n := by simp [hcons]
  exact ⟨d, ds, hcons, Nat.isDigit_of_mem_toDigits (by decide) (by decide) hmem⟩

/-- Only the numeral of zero begins with a zero. -/
theorem head?_toDigits {n : Nat} (h : (Nat.toDigits 10 n).head? = some '0') : n = 0 := by
  induction n using Nat.strongRecOn with
  | _ n ih =>
    by_cases hlt : n < 10
    · rw [Nat.toDigits_of_lt_base hlt] at h
      interval_cases n <;> simp_all
    · rw [Nat.toDigits_of_base_le (by decide) (by omega),
        List.head?_append_of_ne_nil _ Nat.toDigits_ne_nil] at h
      have hzero := ih (n / 10) (by omega) h
      omega

variable {rest : List Char}

theorem readNat_toDigits (n : Nat) (hrest : NoDigit rest) :
    readNat (Nat.toDigits 10 n ++ rest) = some (n, rest) := by
  have hstop : rest.takeWhile Char.isDigit = [] ∧ rest.dropWhile Char.isDigit = rest := by
    cases rest with
    | nil => exact ⟨rfl, rfl⟩
    | cons c rest => simp [hrest c rfl]
  have hdigits : ∀ c ∈ Nat.toDigits 10 n, c.isDigit = true :=
    fun c ↦ Nat.isDigit_of_mem_toDigits (by decide) (by decide)
  have hread : readDigits 10 0 (Nat.toDigits 10 n) = some n := by
    have happend : readDigits 10 0 (Nat.toDigits 10 n ++ []) = some n :=
      readDigits_toDigits (by decide) (by decide) []
    rwa [List.append_nil] at happend
  have hzero : ¬((Nat.toDigits 10 n).head? = some '0' ∧ Nat.toDigits 10 n ≠ ['0']) := by
    rintro ⟨hhead, hne⟩
    rw [head?_toDigits hhead] at hne
    exact hne rfl
  rw [readNat, List.takeWhile_append_of_pos hdigits, List.dropWhile_append_of_pos hdigits,
    hstop.1, hstop.2]
  simp [hzero, hread, Nat.toDigits_ne_nil]

theorem readInt_renderInt (n : Int) (hrest : NoDigit rest) :
    readInt (renderInt n ++ rest) = some (n, rest) := by
  unfold renderInt
  split
  · have hn : -(n.natAbs : Int) = n := by omega
    rw [List.cons_append, readInt, readNat_toDigits _ hrest]
    show some (-(n.natAbs : Int), rest) = some (n, rest)
    rw [hn]
  · have hn : (n.natAbs : Int) = n := by omega
    rw [readInt, readNat_toDigits _ hrest]
    · show some ((n.natAbs : Int), rest) = some (n, rest)
      rw [hn]
    · -- a numeral does not begin with the sign
      obtain ⟨d, ds, hcons, hd⟩ := toDigits_eq_cons n.natAbs
      intro text heq
      rw [hcons] at heq
      rw [(List.cons.inj heq).1] at hd
      exact absurd hd (by decide)

theorem head?_renderInt (n : Int) (rest text : List Char) :
    renderInt n ++ rest ≠ '"' :: text := by
  intro heq
  unfold renderInt at heq
  split at heq
  · exact absurd (List.cons.inj heq).1 (by decide)
  · obtain ⟨d, ds, hcons, hd⟩ := toDigits_eq_cons n.natAbs
    rw [hcons] at heq
    rw [(List.cons.inj heq).1] at hd
    exact absurd hd (by decide)

/-! ## Reading objects back -/

/-- Every character is read back from how it is written, whatever follows. -/
def Escapes (esc : Char → List Char) : Prop :=
  ∀ c rest, readChar (esc c ++ rest) = some (c, rest)

variable {esc : Char → List Char} (h : Escapes esc)

include h

theorem Escapes.cons_of (c : Char) : ∃ d ds, esc c = d :: ds ∧ d ≠ '"' := by
  have hread := h c []
  cases hesc : esc c with
  | nil => simp [hesc, readChar] at hread
  | cons d ds =>
    refine ⟨d, ds, rfl, ?_⟩
    rintro rfl
    simp [hesc, readChar] at hread

theorem readString_flatMap {fuel : Nat} {s : List Char} (hfuel : s.length ≤ fuel)
    (rest : List Char) :
    readString fuel (s.flatMap esc ++ '"' :: rest) = some (s, rest) := by
  induction s generalizing fuel with
  | nil => cases fuel <;> rfl
  | cons c s ih =>
    obtain ⟨fuel, rfl⟩ : ∃ n, fuel = n + 1 := ⟨fuel - 1, by simp at hfuel; omega⟩
    obtain ⟨d, ds, hesc, hd⟩ := h.cons_of c
    have hchar := h c (s.flatMap esc ++ '"' :: rest)
    rw [hesc, List.cons_append] at hchar
    rw [List.flatMap_cons, List.append_assoc, hesc, List.cons_append, readString, hchar]
    · simp [ih (by simpa using hfuel)]
    · exact fun rest heq ↦ hd (List.cons.inj heq).1

theorem length_le_flatMap (s : List Char) : s.length ≤ (s.flatMap esc).length := by
  induction s with
  | nil => exact Nat.le_refl 0
  | cons c s ih =>
    obtain ⟨d, ds, hesc, _⟩ := h.cons_of c
    rw [List.flatMap_cons, List.length_append, hesc, List.length_cons, List.length_cons]
    omega

theorem readQuoted_renderString (s rest : List Char) :
    readQuoted (renderString esc s ++ rest) = some (s, rest) := by
  rw [renderString, List.append_assoc, List.cons_append]
  apply readString_flatMap h
  have hlength := length_le_flatMap h s
  rw [List.length_append]
  omega

theorem readValue_renderValue (v : JsonValue) (hrest : NoDigit rest) :
    readValue (renderValue esc v ++ rest) = some (v, rest) := by
  cases v with
  | string s =>
    have hquoted := readQuoted_renderString h s rest
    rw [renderString, List.cons_append, List.cons_append] at hquoted
    rw [renderValue, renderString, List.cons_append, List.cons_append, readValue, hquoted]
    rfl
  | number n =>
    rw [renderValue, readValue, readInt_renderInt n hrest]
    · rfl
    · exact head?_renderInt n rest

theorem readMember_renderMember (member : List Char × JsonValue) (hrest : NoDigit rest) :
    readMember (renderMember esc member ++ rest) = some (member, rest) := by
  rw [readMember, renderMember, List.append_assoc, readQuoted_renderString h]
  simp [readValue_renderValue h _ hrest]

theorem readMembers_spell {members : List (List Char × JsonValue)} (hne : members ≠ [])
    {fuel : Nat} (hfuel : (spell ',' (members.map (renderMember esc))).length ≤ fuel)
    (rest : List Char) :
    readMembers fuel (spell ',' (members.map (renderMember esc)) ++ '}' :: rest) =
      some (members, rest) := by
  induction members generalizing fuel with
  | nil => exact absurd rfl hne
  | cons member members ih =>
    have hlength : 0 < (renderMember esc member).length := by
      simp [renderMember]
    cases members with
    | nil =>
      rw [List.map_singleton, spell_singleton] at hfuel ⊢
      obtain ⟨fuel, rfl⟩ : ∃ n, fuel = n + 1 := ⟨fuel - 1, by omega⟩
      rw [readMembers, readMember_renderMember h member (by simp [NoDigit])]
      rfl
    | cons next members =>
      have hspell : spell ',' ((member :: next :: members).map (renderMember esc)) =
          renderMember esc member ++
            ',' :: spell ',' ((next :: members).map (renderMember esc)) := by
        simp [spell, List.intercalate_cons_cons]
      rw [hspell] at hfuel ⊢
      rw [List.length_append, List.length_cons] at hfuel
      obtain ⟨fuel, rfl⟩ : ∃ n, fuel = n + 1 := ⟨fuel - 1, by omega⟩
      have hnext := ih (by simp) (show _ ≤ fuel by omega)
      rw [readMembers, List.append_assoc, readMember_renderMember h member (by simp [NoDigit])]
      rw [List.map_cons] at hnext
      simp [hnext]

/-- What is written as an object is read as one. -/
theorem decodeObject_renderObject (members : List (List Char × JsonValue)) :
    decodeObject (renderObject esc members) = some members := by
  cases members with
  | nil => rfl
  | cons member members =>
    obtain ⟨text, htext⟩ :
        ∃ text, spell ',' ((member :: members).map (renderMember esc)) = '"' :: text := by
      cases members <;> exact ⟨_, rfl⟩
    have hread : ∀ fuel, ('"' :: text).length ≤ fuel →
        readMembers fuel ('"' :: text ++ ['}']) = some (member :: members, []) := by
      intro fuel hfuel
      rw [← htext] at hfuel ⊢
      exact readMembers_spell h (List.cons_ne_nil member members) hfuel []
    rw [renderObject, List.cons_append, htext, decodeObject, hread _ (by simp)]
    simp

omit h in
theorem newline_notMem_renderObject (hesc : ∀ c, '\n' ∉ esc c)
    (members : List (List Char × JsonValue)) : '\n' ∉ renderObject esc members := by
  have hstring : ∀ s, '\n' ∉ renderString esc s := by
    simp [renderString, hesc]
  have hdigit : ∀ n, '\n' ∉ Nat.toDigits 10 n := by
    intro n hmem
    exact absurd (Nat.isDigit_of_mem_toDigits (by decide) (by decide) hmem) (by decide)
  have hvalue : ∀ v, '\n' ∉ renderValue esc v := by
    intro v
    cases v with
    | string s => exact hstring s
    | number n =>
      rw [renderValue, renderInt]
      split <;> simp [hdigit]
  intro hmem
  rw [renderObject, List.cons_append, List.mem_cons, List.mem_append] at hmem
  rcases hmem with hbrace | hspell | hbrace
  · exact absurd hbrace (by decide)
  · rcases mem_spell hspell with hcomma | ⟨_, hmember, hmem⟩
    · exact absurd hcomma (by decide)
    · obtain ⟨member, _, rfl⟩ := List.mem_map.mp hmember
      simp [renderMember, hstring, hvalue] at hmem
  · simp at hbrace

end Mntrs.Base

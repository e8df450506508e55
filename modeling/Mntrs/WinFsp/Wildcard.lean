import Mntrs.Fs.Fnmatch
import Mntrs.WinFsp.ReadDirectory

/-!
# The two matchers of names

`match_wildcard` (`src/src/core_fs/winfsp.rs:400-440`) filters the pages of an enumeration as
`fnmatch` (`src/src/util.rs:227-261`) filters listings, but it goes through the bytes of pattern
and name: a question mark takes a byte where it takes a character there.
-/

namespace Mntrs

open Base

/-- `match_wildcard`. -/
def matchWildcard (cfg : Config) (pattern name : Path) (caseInsensitive : Bool) : Bool :=
  if caseInsensitive then
    wildcardMatchInner (utf8 (cfg.toLowercase pattern)) (utf8 (cfg.toLowercase name))
  else wildcardMatchInner (utf8 pattern) (utf8 name)

/-- The filter of a page. -/
theorem matchesPattern_some (cfg : Config) (pattern name : Path) :
    matchesPattern cfg (some pattern) name = matchWildcard cfg pattern name true := rfl

/-- The bytes of the name can be cut into what the bytes of the pattern take. -/
def ByteMatches (pattern name : Path) : Prop :=
  Globs '*'.toUInt8 '?'.toUInt8 (utf8 pattern) (utf8 name)

variable {p n : Path} {c x : Char}

/-- The recursion tries both what a star may take. -/
theorem wildcardMatchInner_iff (pat name : Bytes) :
    wildcardMatchInner pat name = true ↔ Globs '*'.toUInt8 '?'.toUInt8 pat name := by
  fun_induction wildcardMatchInner pat name with
  | case1 | case2 => simp
  | case3 pat ih => simp [ih, globs_star]
  | case4 x pat hstar => simp [globs_cons_of_ne hstar]
  | case5 pat b name ih ih' => rw [Bool.or_eq_true, ih, ih', globs_star_cons]
  | case6 x pat b name hstar htakes ih => rw [ih, globs_cons_cons hstar, and_iff_right htakes]
  | case7 x pat b name hstar htakes => simp [globs_cons_cons hstar, htakes]

theorem fnmatch_lowercase_iff (cfg : Config) (pattern name : Path) :
    fnmatch { cfg with ignoreCase := true } pattern name = true ↔
      Matches (cfg.toLowercase pattern) (cfg.toLowercase name) := by
  have hstart : SinceStar (cfg.toLowercase pattern) 0 none := by simp [SinceStar]
  have hloop := @fnmatchLoop_iff (cfg.toLowercase name) _ 0 none hstart
  simpa [fnmatch, Retries] using hloop

theorem matchWildcard_iff (cfg : Config) (pattern name : Path) :
    matchWildcard cfg pattern name true = true ↔
      ByteMatches (cfg.toLowercase pattern) (cfg.toLowercase name) :=
  wildcardMatchInner_iff _ _

/-! ## Bytes of characters -/

/-- A character of one byte is its byte; the bytes of the others are all above. -/
theorem utf8EncodeChar_cases (c : Char) :
    (c.utf8Size = 1 ∧ c.toNat < 128 ∧ String.utf8EncodeChar c = [c.toUInt8]) ∨
      (c.utf8Size ≠ 1 ∧ 128 ≤ c.toNat ∧ ∀ b ∈ String.utf8EncodeChar c, 128 ≤ b.toNat) := by
  have hsize := utf8Size_eq_one_iff c
  by_cases hsmall : c.toNat < 128
  · exact .inl ⟨hsize.mpr hsmall, hsmall, String.utf8EncodeChar_eq_singleton (hsize.mpr hsmall)⟩
  · refine .inr ⟨mt hsize.mp hsmall, Nat.not_lt.mp hsmall, ?_⟩
    have hhigh : ∀ j, 128 ≤ j → j < 256 → 128 ≤ (UInt8.ofNat j).toNat := by
      intro j hlow hfits
      rwa [UInt8.toNat_ofNat', Nat.mod_eq_of_lt hfits]
    have hlarge : ¬c.val.toNat ≤ 127 := fun hle ↦ hsmall (Nat.lt_succ_iff.mpr hle)
    rw [String.utf8EncodeChar]
    split_ifs <;> simp only [List.forall_mem_cons]
    · exact ⟨hhigh _ (by omega) (by omega), hhigh _ (by omega) (by omega), by simp⟩
    · exact ⟨hhigh _ (by omega) (by omega), hhigh _ (by omega) (by omega),
        hhigh _ (by omega) (by omega), by simp⟩
    · exact ⟨hhigh _ (by omega) (by omega), hhigh _ (by omega) (by omega),
        hhigh _ (by omega) (by omega), hhigh _ (by omega) (by omega), by simp⟩

theorem toUInt8_inj (hc : c.toNat < 128) (hx : x.toNat < 128) (h : x.toUInt8 = c.toUInt8) :
    x = c := by
  apply Char.toNat_inj.mp
  rw [← toNat_toUInt8 hc, ← toNat_toUInt8 hx, h]

/-- No byte of a literal is a wildcard's. -/
theorem literal_bytes (hstar : x ≠ '*') (hany : x ≠ '?') :
    ∀ b ∈ String.utf8EncodeChar x, b ≠ '*'.toUInt8 ∧ b ≠ '?'.toUInt8 := by
  intro b hb
  rcases utf8EncodeChar_cases x with ⟨_, hsmall, hbyte⟩ | ⟨_, _, hhigh⟩
  · rw [hbyte, List.mem_singleton] at hb
    subst hb
    exact ⟨fun h ↦ hstar (toUInt8_inj (by decide) hsmall h),
      fun h ↦ hany (toUInt8_inj (by decide) hsmall h)⟩
  · have hlarge := hhigh b hb
    constructor
    · rintro rfl
      exact absurd hlarge (by decide)
    · rintro rfl
      exact absurd hlarge (by decide)

/-- The bytes of one character do not begin those of another. -/
theorem utf8EncodeChar_append_inj {m m' : Bytes}
    (h : String.utf8EncodeChar x ++ m = String.utf8EncodeChar c ++ m') : x = c ∧ m = m' := by
  have hx := @ByteArray.utf8DecodeChar?_utf8EncodeChar_append m.toByteArray x
  have hc := @ByteArray.utf8DecodeChar?_utf8EncodeChar_append m'.toByteArray c
  rw [← List.toByteArray_append] at hx hc
  rw [h, hc] at hx
  cases hx
  exact ⟨rfl, List.append_cancel_left h⟩

/-- Where a first byte stands, a character begins. -/
theorem eq_utf8_of_suffix {b : UInt8} {bs : Bytes} (hb : b.IsUTF8FirstByte)
    (h : b :: bs <:+ utf8 n) : ∃ n', n' <:+ n ∧ b :: bs = utf8 n' := by
  induction n with
  | nil => simp [utf8] at h
  | cons c n ih =>
    obtain ⟨t, ht⟩ := h
    rw [utf8_cons, List.append_eq_append_iff] at ht
    rcases ht with ⟨a, hchar, hrest⟩ | ⟨a, _, hrest⟩
    · cases t with
      | nil =>
        refine ⟨c :: n, List.suffix_rfl, ?_⟩
        rw [hrest, utf8_cons, hchar, List.nil_append]
      | cons d t =>
        cases a with
        | nil => exact ⟨n, List.suffix_cons c n, hrest⟩
        | cons y a =>
          -- a later byte of a character is no first byte
          exfalso
          have hlength : t.length + 1 < (String.utf8EncodeChar c).length := by
            rw [hchar]
            simp
          have hy : (String.utf8EncodeChar c)[t.length + 1] = b := by
            simp only [hchar, List.cons_append, List.getElem_cons_succ]
            simp [(List.cons.inj hrest).1]
          have hfirst := @UInt8.isUTF8FirstByte_getElem_utf8EncodeChar c (t.length + 1) hlength
          rw [hy] at hfirst
          exact absurd (hfirst.mp hb) (Nat.succ_ne_zero _)
    · obtain ⟨n', hn', heq⟩ := ih ⟨a, hrest.symm⟩
      exact ⟨n', hn'.trans (List.suffix_cons c n), heq⟩

/-! ## Where the matchers agree -/

/-- A literal takes itself, by bytes as well. -/
theorem byteMatches_literal (hstar : x ≠ '*') (hany : x ≠ '?') :
    ByteMatches (x :: p) n ↔ ∃ n', n = x :: n' ∧ ByteMatches p n' := by
  rw [ByteMatches, utf8_cons, globs_literal (literal_bytes hstar hany)]
  constructor
  · rintro ⟨m, hm, hp⟩
    cases n with
    | nil => simp [utf8, String.utf8EncodeChar_ne_nil] at hm
    | cons c n =>
      obtain ⟨rfl, rfl⟩ := utf8EncodeChar_append_inj hm
      exact ⟨n, rfl, hp⟩
  · rintro ⟨n', rfl, hp⟩
    exact ⟨utf8 n', utf8_cons x n', hp⟩

theorem byteMatches_star_of_suffix {n' : Path} (hn : n' <:+ n) (h : ByteMatches p n') :
    ByteMatches ('*' :: p) n := by
  obtain ⟨a, rfl⟩ := hn
  exact globs_star.mpr ⟨utf8 n', ⟨utf8 a, List.flatMap_append.symm⟩, h⟩

/-- Without question marks a star leaves whole characters to the rest of the pattern. -/
private theorem exists_boundary (hp : '?' ∉ p) {b : Bytes} (hb : b <:+ utf8 n)
    (h : Globs '*'.toUInt8 '?'.toUInt8 (utf8 p) b) : ∃ n', n' <:+ n ∧ ByteMatches p n' := by
  induction p generalizing b with
  | nil => exact ⟨[], List.nil_suffix, globs_nil.mpr rfl⟩
  | cons x p ih =>
    simp only [List.mem_cons, not_or] at hp
    by_cases hstar : x = '*'
    · subst hstar
      obtain ⟨b', hb', hrest⟩ := globs_star.mp h
      obtain ⟨n', hn', hmatch⟩ := ih hp.2 (hb'.trans hb) hrest
      exact ⟨n', hn', byteMatches_star_of_suffix List.suffix_rfl hmatch⟩
    · rw [utf8_cons, globs_literal (literal_bytes hstar (Ne.symm hp.1))] at h
      obtain ⟨m, rfl, hm⟩ := h
      obtain ⟨y, ys, hchar⟩ := List.exists_cons_of_ne_nil (@String.utf8EncodeChar_ne_nil x)
      have hfirst : y.IsUTF8FirstByte := by
        have hzero := @UInt8.isUTF8FirstByte_getElem_zero_utf8EncodeChar x
        simpa only [hchar, List.getElem_cons_zero] using hzero
      rw [hchar] at hb
      obtain ⟨n', hn', heq⟩ := eq_utf8_of_suffix hfirst hb
      refine ⟨n', hn', ?_⟩
      rw [ByteMatches, ← heq, utf8_cons, globs_literal (literal_bytes hstar (Ne.symm hp.1)), hchar]
      exact ⟨m, rfl, hm⟩

/-- Among characters of one byte every byte begins one. -/
private theorem exists_boundary_of_ascii (hn : ∀ c ∈ n, c.utf8Size = 1) {b : Bytes}
    (hb : b <:+ utf8 n) : ∃ n', n' <:+ n ∧ b = utf8 n' := by
  cases b with
  | nil => exact ⟨[], List.nil_suffix, rfl⟩
  | cons y bs =>
    apply eq_utf8_of_suffix _ hb
    obtain ⟨c, hc, hy⟩ := List.mem_flatMap.mp (hb.subset (List.mem_cons_self))
    rw [String.utf8EncodeChar_eq_singleton (hn c hc), List.mem_singleton] at hy
    have hzero := @UInt8.isUTF8FirstByte_getElem_zero_utf8EncodeChar c
    simpa only [String.utf8EncodeChar_eq_singleton (hn c hc), List.getElem_cons_zero, ← hy]
      using hzero

/-- Bytes and characters match the same if the pattern has no question mark or the name has
characters of one byte only. -/
theorem byteMatches_iff (h : '?' ∉ p ∨ ∀ c ∈ n, c.utf8Size = 1) :
    ByteMatches p n ↔ Matches p n := by
  induction p generalizing n with
  | nil =>
    rw [Matches, ByteMatches]
    cases n with
    | nil => simp [utf8]
    | cons c n => simp [utf8, String.utf8EncodeChar_ne_nil]
  | cons x p ih =>
    have hrest : ∀ {n'}, n' <:+ n → (ByteMatches p n' ↔ Matches p n') := by
      intro n' hn'
      apply ih
      apply h.imp
      · intro hmark hmem
        exact hmark (List.mem_cons_of_mem x hmem)
      · exact fun hascii c hc ↦ hascii c (hn'.subset hc)
    by_cases hstar : x = '*'
    · subst hstar
      rw [Matches, globs_star]
      constructor
      · intro hmatch
        have hsuffix : ∃ n', n' <:+ n ∧ ByteMatches p n' := by
          obtain ⟨b, hb, hp⟩ := globs_star.mp hmatch
          rcases h with hmark | hascii
          · exact exists_boundary (fun hmem ↦ hmark (List.mem_cons_of_mem _ hmem)) hb hp
          · obtain ⟨n', hn', rfl⟩ := exists_boundary_of_ascii hascii hb
            exact ⟨n', hn', hp⟩
        obtain ⟨n', hn', hp⟩ := hsuffix
        exact ⟨n', hn', (hrest hn').mp hp⟩
      · rintro ⟨n', hn', hp⟩
        exact byteMatches_star_of_suffix hn' ((hrest hn').mpr hp)
    · by_cases hany : x = '?'
      · subst hany
        have hascii : ∀ c ∈ n, c.utf8Size = 1 := h.resolve_left (by simp)
        have hmark : utf8 ('?' :: p) = '?'.toUInt8 :: utf8 p := utf8_cons '?' p
        rw [ByteMatches, hmark, Matches, globs_cons_of_ne hstar, globs_cons_of_ne (by decide)]
        cases n with
        | nil => simp [utf8]
        | cons c n =>
          have hbyte : utf8 (c :: n) = c.toUInt8 :: utf8 n := by
            rw [utf8_cons, String.utf8EncodeChar_eq_singleton (hascii c (by simp))]
            rfl
          have hnext := hrest (List.suffix_cons c n)
          simp only [ByteMatches, Matches] at hnext
          simp [hbyte, hnext]
      · rw [byteMatches_literal hstar hany, Matches, globs_cons_of_ne hstar]
        constructor
        · rintro ⟨n', rfl, hp⟩
          exact ⟨x, n', rfl, .inr rfl, (hrest (List.suffix_cons x n')).mp hp⟩
        · rintro ⟨c, n', rfl, hc, hp⟩
          rw [hc.resolve_left hany]
          exact ⟨n', rfl, (hrest (List.suffix_cons c n')).mpr hp⟩

/-- As many question marks as the name has characters are as many bytes. -/
theorem ascii_of_marks (h : ByteMatches (List.replicate n.length '?') n) :
    ∀ c ∈ n, c.utf8Size = 1 := by
  have hbytes : ∀ k, utf8 (List.replicate k '?') = List.replicate k '?'.toUInt8 := by
    intro k
    induction k with
    | zero => rfl
    | succ k ih =>
      rw [List.replicate_succ, utf8_cons, ih]
      rfl
  rw [ByteMatches, hbytes, globs_replicate (by decide)] at h
  exact utf8Size_of_length_utf8 h

/-- The two matchers agree on a pattern and a name exactly when the name can be cut by bytes if and
only if it can be cut by characters. They agree on a name whatever the pattern exactly when its
characters, in lower case, are of one byte, and on every name if the pattern has no question
mark. -/
theorem matchWildcard_agrees_iff (cfg : Config)
    (hlower : ∀ k, cfg.toLowercase (List.replicate k '?') = List.replicate k '?') :
    (∀ pattern name, matchWildcard cfg pattern name true =
        fnmatch { cfg with ignoreCase := true } pattern name ↔
      (ByteMatches (cfg.toLowercase pattern) (cfg.toLowercase name) ↔
        Matches (cfg.toLowercase pattern) (cfg.toLowercase name))) ∧
    (∀ name, (∀ pattern, matchWildcard cfg pattern name true =
        fnmatch { cfg with ignoreCase := true } pattern name) ↔
      ∀ c ∈ cfg.toLowercase name, c.utf8Size = 1) ∧
    ∀ pattern, '?' ∉ cfg.toLowercase pattern → ∀ name, matchWildcard cfg pattern name true =
      fnmatch { cfg with ignoreCase := true } pattern name := by
  have hagree : ∀ pattern name, matchWildcard cfg pattern name true =
        fnmatch { cfg with ignoreCase := true } pattern name ↔
      (ByteMatches (cfg.toLowercase pattern) (cfg.toLowercase name) ↔
        Matches (cfg.toLowercase pattern) (cfg.toLowercase name)) := by
    intro pattern name
    rw [Bool.eq_iff_iff, matchWildcard_iff, fnmatch_lowercase_iff]
  refine ⟨hagree, fun name ↦ ⟨fun h ↦ ?_, fun h pattern ↦ ?_⟩, fun pattern hmark name ↦ ?_⟩
  · have hmarks := (hagree _ name).mp (h (List.replicate (cfg.toLowercase name).length '?'))
    rw [hlower] at hmarks
    apply ascii_of_marks
    apply hmarks.mpr
    rw [Matches, globs_replicate (by decide)]
  · exact (hagree pattern name).mpr (byteMatches_iff (.inr h))
  · exact (hagree pattern name).mpr (byteMatches_iff (.inl hmark))

/-- A name of ASCII letters, with the lower case of ASCII. -/
theorem matchWildcard_agrees_iff_sample :
    matchWildcard (.plain .off) "?.TXT".toList "A.txt".toList true =
      fnmatch { Config.plain .off with ignoreCase := true } "?.TXT".toList "A.txt".toList := by
  have hlower : ∀ k, (Config.plain .off).toLowercase (List.replicate k '?') =
      List.replicate k '?' := by
    intro k
    show (List.replicate k '?').map Char.toLower = List.replicate k '?'
    rw [List.map_replicate]
    rfl
  have hascii : ("A.txt".toList.map Char.toLower).all (fun c ↦ c.utf8Size = 1) = true := by decide
  refine ((matchWildcard_agrees_iff _ hlower).2.1 "A.txt".toList).mpr ?_ "?.TXT".toList
  intro c hc
  simpa using List.all_eq_true.mp hascii c hc

/-- One question mark against a character of two bytes. -/
theorem mark_takes_one_byte :
    fnmatch { Config.plain .off with ignoreCase := true } ['?'] ['é'] = true ∧
      matchWildcard (.plain .off) ['?'] ['é'] true = false := by
  constructor
  · rw [fnmatch_lowercase_iff]
    exact (globs_replicate (by decide) 1).mpr rfl
  · rw [Bool.eq_false_iff, Ne, matchWildcard_iff]
    intro hmatch
    have hlength : (utf8 ['é']).length = 1 := (globs_replicate (by decide) 1).mp hmatch
    exact absurd hlength (by decide)

end Mntrs

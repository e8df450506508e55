import Mathlib.Data.List.DropRight
import Mntrs.Mount.MountsDb

/-!
# Storage URLs without their credentials

`redact_storage_url` (`src/src/util.rs:346-369`) replaces the user information of a storage URL
before it is logged or written to `mounts.txt`, and gives back a text that it cannot parse, or in
which it finds no user information, as it is. The URL is read by the states of the WHATWG URL
algorithm up to the end of the authority; what they do with a host, a port and a path comes as
parameters.
-/

namespace Mntrs.Mount

open Base

/-! ### Parsing a URL -/

/-- A C0 control or a space. -/
def isC0OrSpace (c : Char) : Bool := c.toNat ≤ 0x20

/-- An ASCII tab or newline. -/
def isTabOrNewline (c : Char) : Bool := c = '\t' || c = '\n' || c = '\r'

/-- The text without tabs and newlines. -/
def dropTabs (t : Text) : Text := t.filter (!isTabOrNewline ·)

/-- What the parser reads of a text. -/
def tidyUrl (t : Text) : Text := dropTabs ((t.dropWhile isC0OrSpace).rdropWhile isC0OrSpace)

/-- The characters of a scheme. -/
def isSchemeChar (c : Char) : Bool := c.isAlphanum || c = '+' || c = '-' || c = '.'

/-- The scheme in lower case and what follows its colon. -/
def splitScheme (t : Text) : Option (Text × Text) :=
  if (t.head?.map Char.isAlpha).getD false then
    match t.dropWhile isSchemeChar with
    | ':' :: rest => some ((t.takeWhile isSchemeChar).map Char.toLower, rest)
    | _ => none
  else none

/-- The scheme of files, which has no user information. -/
def fileScheme : Text := ['f', 'i', 'l', 'e']

/-- The other special schemes: a backslash in them is a slash, and any number of slashes stands
before the authority. -/
def specialSchemes : List Text :=
  [['f', 't', 'p'], ['h', 't', 't', 'p'], ['h', 't', 't', 'p', 's'], ['w', 's'], ['w', 's', 's']]

/-- The parts of a parsed URL that are read. The user name and the password are kept as they
stand: they are encoded, which leaves only an empty text empty. -/
structure Url where
  username : Text
  password : Text
  host : Option Text
  path : Text
deriving DecidableEq, Repr

/-- The states of the algorithm that see no user information: the host and the port, the path, a
URL of a file, and a URL without an authority. The last two are the setters of the host and of the
path of `s3://x@x/`. -/
structure UrlParts where
  hostAndPort : Bool → Text → Option Text
  path : Bool → Text → Text
  fileUrl : Text → Option (Option Text × Text)
  pathUrl : Text → Option Text
  setHost : Text → Text
  setPath : Text → Text

/-- The characters that end the authority. -/
def endsAuthority (special : Bool) (c : Char) : Bool :=
  c = '/' || c = '?' || c = '#' || special && c = '\\'

/-- The authority state: the user information ends at the last at sign, and then there has to be a
host. -/
def parseAuthority (p : UrlParts) (special : Bool) (t : Text) : Option Url :=
  let authority := t.takeWhile (!endsAuthority special ·)
  let userinfo := (authority.rdropWhile (· ≠ '@')).dropLast
  let host := authority.rtakeWhile (· ≠ '@')
  if '@' ∈ authority ∧ host = [] then none
  else (p.hostAndPort special host).map (fun h ↦
    { username := userinfo.takeWhile (· ≠ ':')
      password := (userinfo.dropWhile (· ≠ ':')).tail
      host := some h
      path := p.path special (t.dropWhile (!endsAuthority special ·)) })

/-- `url::Url::parse`. -/
def parseUrl (p : UrlParts) (s : Text) : Option Url :=
  match splitScheme (tidyUrl s) with
  | none => none
  | some (scheme, rest) =>
    if scheme = fileScheme then
      (p.fileUrl rest).map (fun (host, path) ↦ ⟨[], [], host, path⟩)
    else if scheme ∈ specialSchemes then
      parseAuthority p true (rest.dropWhile (fun c ↦ c = '/' || c = '\\'))
    else
      match rest with
      | '/' :: '/' :: t => parseAuthority p false t
      | _ => (p.pathUrl rest).map (fun path ↦ ⟨[], [], none, path⟩)

/-- What stands before the host of a URL that was redacted. -/
def redactedStart : Text := ['s', '3', ':', '/', '/', '*', '*', '*']

/-- The URL that is shown for one with credentials. -/
def sanitized (p : UrlParts) (u : Url) : Text :=
  redactedStart ++ '@' :: ((u.host.map p.setHost).getD ['x'] ++ p.setPath u.path)

/-- `redact_storage_url`. -/
def redactStorageUrl (p : UrlParts) (s : Text) : Text :=
  match parseUrl p s with
  | some u => if u.username ≠ [] ∨ u.password ≠ [] then sanitized p u else s
  | none => s

/-! ### URLs with credentials -/

/-- The parts of a storage URL beside the credentials. -/
structure Location where
  scheme : Text
  host : Text
  path : Text
  scheme_head : (scheme.head?.map Char.isAlpha).getD false = true
  scheme_chars : ∀ c ∈ scheme, isSchemeChar c = true
  host_chars : ∀ c ∈ host, endsAuthority true c = false ∧ c ≠ '@'
  path_head : path = [] ∨ path.head? = some '/'

/-- The characters of the secrets that providers issue. -/
def isSecretChar (c : Char) : Bool := c.isAlphanum || c = '+' || c = '/' || c = '='

/-- A pair of a user and a secret; the at sign ends both. -/
structure Credentials where
  user : Text
  secret : Text
  user_chars : '@' ∉ user
  secret_chars : ∀ c ∈ secret, isSecretChar c = true

@[ext]
theorem Credentials.ext {c d : Credentials} (huser : c.user = d.user)
    (hsecret : c.secret = d.secret) : c = d := by
  cases c
  cases d
  simp_all

/-- The URL of a location with credentials. -/
def Location.url (l : Location) (c : Credentials) : Text :=
  l.scheme ++ ':' :: '/' :: '/' :: (c.user ++ ':' :: c.secret) ++ '@' :: (l.host ++ l.path)

/-- Whether a location has a special scheme. -/
def Location.special (l : Location) : Bool := l.scheme.map Char.toLower ∈ specialSchemes

/-- What the parser reads after the credentials. -/
def Location.tail (l : Location) : Text := dropTabs ((l.host ++ l.path).rdropWhile isC0OrSpace)

/-- The text of the host and the port. -/
def Location.hostText (l : Location) : Text := l.tail.takeWhile (!endsAuthority l.special ·)

/-- What the parser reads of a user. -/
def readUser (special : Bool) (user : Text) : Text :=
  if special then (dropTabs user).dropWhile (fun c ↦ c = '/' || c = '\\') else dropTabs user

/-- The credentials are recognised: the location can have them and has a host that is accepted, no
character of theirs ends the authority, and there is a user or a secret. -/
structure Recognised (p : UrlParts) (l : Location) (c : Credentials) : Prop where
  scheme : l.scheme.map Char.toLower ≠ fileScheme
  host : l.hostText ≠ [] ∧ p.hostAndPort l.special l.hostText ≠ none
  user : ∀ x ∈ readUser l.special c.user, endsAuthority l.special x = false
  secret : '/' ∉ c.secret
  some : readUser l.special c.user ≠ [] ∨ c.secret ≠ []

variable {p : UrlParts} {l : Location} {c c' : Credentials} {special : Bool} {info tail : Text}

/-! ### The authority -/

variable {q : Char → Bool} {t : Text} {x : Char}

private theorem takeWhile_append_cons {a : Text} (ha : ∀ y ∈ a, q y) (hx : q x) :
    (a ++ x :: t).takeWhile q = a ++ x :: t.takeWhile q := by
  rw [List.takeWhile_append_of_pos ha, List.takeWhile_cons_of_pos hx]

private theorem dropWhile_append_cons {a : Text} (ha : ∀ y ∈ a, q y) (hx : q x) :
    (a ++ x :: t).dropWhile q = t.dropWhile q := by
  rw [List.dropWhile_append_of_pos ha, List.dropWhile_cons_of_pos hx]

/-- Dropping from the end stops at a character that stays. -/
theorem rdropWhile_append_cons (a t : Text) (hx : q x = false) :
    (a ++ x :: t).rdropWhile q = a ++ x :: t.rdropWhile q := by
  induction t using List.reverseRecOn with
  | nil => simp [List.rdropWhile_concat_neg, hx]
  | append_singleton t y ih =>
    have hcons : a ++ x :: (t ++ [y]) = (a ++ x :: t) ++ [y] := by simp
    cases hy : q y with
    | true =>
      rw [hcons, List.rdropWhile_concat_pos _ _ _ hy, ih, List.rdropWhile_concat_pos _ _ _ hy]
    | false =>
      rw [hcons, List.rdropWhile_concat_neg _ _ _ (by simp [hy]),
        List.rdropWhile_concat_neg _ _ _ (by simp [hy])]
      simp

/-- An authority whose user information holds no delimiter. -/
theorem parseAuthority_of_clean (hinfo : ∀ x ∈ info, endsAuthority special x = false)
    (hat : '@' ∉ tail.takeWhile (!endsAuthority special ·)) :
    parseAuthority p special (info ++ '@' :: tail) =
      if tail.takeWhile (!endsAuthority special ·) = [] then none
      else (p.hostAndPort special (tail.takeWhile (!endsAuthority special ·))).map (fun h ↦
        ⟨info.takeWhile (· ≠ ':'), (info.dropWhile (· ≠ ':')).tail, some h,
          p.path special (tail.dropWhile (!endsAuthority special ·))⟩) := by
  have hat' : (!endsAuthority special '@') = true := by simp [endsAuthority]
  have hinfo' : ∀ x ∈ info, (!endsAuthority special x) = true := by simpa using hinfo
  unfold parseAuthority
  rw [takeWhile_append_cons hinfo' hat', dropWhile_append_cons hinfo' hat']
  generalize tail.takeWhile (!endsAuthority special ·) = host at hat ⊢
  have hhost : host.rdropWhile (· ≠ '@') = [] := by
    rw [List.rdropWhile_eq_nil_iff]
    intro x hx
    simp only [ne_eq, decide_not, Bool.not_eq_true', decide_eq_false_iff_not]
    rintro rfl
    exact hat hx
  have hdrop : (info ++ '@' :: host).rdropWhile (· ≠ '@') = info ++ ['@'] := by
    rw [rdropWhile_append_cons _ _ (by simp), hhost]
  have htake : (info ++ '@' :: host).rtakeWhile (· ≠ '@') = host := by
    have hsplit := List.rdropWhile_append_rtakeWhile (p := (· ≠ '@')) (l := info ++ '@' :: host)
    rw [hdrop, List.append_assoc] at hsplit
    simpa using List.append_cancel_left hsplit
  simp only [hdrop, htake]
  simp

/-- An authority that ends before the at sign has no user information. -/
theorem credentials_of_parseAuthority {u : Url} (hx : x ∈ info) (hends : endsAuthority special x)
    (hat : '@' ∉ info) (h : parseAuthority p special (info ++ tail) = some u) :
    u.username = [] ∧ u.password = [] := by
  have hauth : (info ++ tail).takeWhile (!endsAuthority special ·) =
      info.takeWhile (!endsAuthority special ·) := by
    rw [List.takeWhile_append, if_neg]
    intro hlength
    have hself := (List.takeWhile_prefix (!endsAuthority special ·)).eq_of_length hlength
    have hkeeps := List.takeWhile_eq_self_iff.mp hself x hx
    simp [hends] at hkeeps
  have hnone : (info.takeWhile (!endsAuthority special ·)).rdropWhile (· ≠ '@') = [] := by
    rw [List.rdropWhile_eq_nil_iff]
    intro y hy
    simp only [ne_eq, decide_not, Bool.not_eq_true', decide_eq_false_iff_not]
    rintro rfl
    exact hat ((List.takeWhile_prefix _).subset hy)
  unfold parseAuthority at h
  simp only [hauth, hnone] at h
  split at h
  · cases h
  · obtain ⟨host, -, rfl⟩ := Option.map_eq_some_iff.mp h
    simp

/-! ### The whole URL -/

theorem dropTabs_eq_self (h : ∀ x ∈ t, isTabOrNewline x = false) : dropTabs t = t :=
  List.filter_eq_self.mpr (by simpa using h)

theorem isTabOrNewline_of_isSchemeChar (h : isSchemeChar x) : isTabOrNewline x = false := by
  by_contra hx
  simp only [isTabOrNewline, Bool.not_eq_false, Bool.or_eq_true, decide_eq_true_eq] at hx
  rcases hx with (rfl | rfl) | rfl <;> revert h <;> decide

theorem isTabOrNewline_of_isSecretChar (h : isSecretChar x) : isTabOrNewline x = false := by
  by_contra hx
  simp only [isTabOrNewline, Bool.not_eq_false, Bool.or_eq_true, decide_eq_true_eq] at hx
  rcases hx with (rfl | rfl) | rfl <;> revert h <;> decide

theorem dropTabs_append (s t : Text) : dropTabs (s ++ t) = dropTabs s ++ dropTabs t :=
  List.filter_append ..

theorem dropTabs_cons (hx : isTabOrNewline x = false) (t : Text) :
    dropTabs (x :: t) = x :: dropTabs t :=
  List.filter_cons_of_pos (by simp [hx])

theorem isC0OrSpace_of_isAlpha (h : x.isAlpha) : isC0OrSpace x = false := by
  have hcontrols : ∀ n < 33, (Char.ofNat n).isAlpha = false := by decide
  by_contra hx
  have hle : x.toNat ≤ 32 := by simpa [isC0OrSpace] using hx
  have hx := hcontrols x.toNat (by omega)
  rw [Char.ofNat_toNat, h] at hx
  cases hx

/-- What the parser reads of a URL with credentials. -/
theorem tidyUrl_url (l : Location) (c : Credentials) :
    tidyUrl (l.url c) =
      l.scheme ++ ':' :: '/' :: '/' :: (dropTabs c.user ++ ':' :: c.secret) ++ '@' :: l.tail := by
  have hstart : (l.url c).dropWhile isC0OrSpace = l.url c := by
    have hhead := l.scheme_head
    unfold Location.url
    cases hscheme : l.scheme with
    | nil => simp [hscheme] at hhead
    | cons x xs =>
      rw [hscheme] at hhead
      exact List.dropWhile_cons_of_neg (by simp [isC0OrSpace_of_isAlpha hhead])
  have hscheme := dropTabs_eq_self (fun x hx ↦ isTabOrNewline_of_isSchemeChar (l.scheme_chars x hx))
  have hsecret := dropTabs_eq_self (fun x hx ↦ isTabOrNewline_of_isSecretChar (c.secret_chars x hx))
  rw [tidyUrl, hstart, Location.url, rdropWhile_append_cons _ _ (by decide), dropTabs_append,
    dropTabs_append, hscheme, dropTabs_cons (by decide), dropTabs_cons (by decide),
    dropTabs_cons (by decide), dropTabs_append, dropTabs_cons (by decide), hsecret,
    dropTabs_cons (by decide), Location.tail]

theorem splitScheme_append {scheme rest : Text}
    (hhead : (scheme.head?.map Char.isAlpha).getD false)
    (hchars : ∀ c ∈ scheme, isSchemeChar c) :
    splitScheme (scheme ++ ':' :: rest) = some (scheme.map Char.toLower, rest) := by
  have hcolon : ¬ isSchemeChar ':' = true := by decide
  have hhead' : ((scheme ++ ':' :: rest).head?.map Char.isAlpha).getD false = true := by
    cases scheme with
    | nil => simp at hhead
    | cons x xs => simpa using hhead
  rw [splitScheme, if_pos hhead', List.dropWhile_append_of_pos hchars,
    List.takeWhile_append_of_pos hchars, List.takeWhile_cons_of_neg hcolon, List.append_nil]
  rfl

/-- The user information as it is read. -/
def readInfo (special : Bool) (c : Credentials) : Text := readUser special c.user ++ ':' :: c.secret

/-- A URL with credentials is read from its authority on. -/
theorem parseUrl_url (hscheme : l.scheme.map Char.toLower ≠ fileScheme) :
    parseUrl p (l.url c) = parseAuthority p l.special (readInfo l.special c ++ '@' :: l.tail) := by
  unfold parseUrl
  rw [tidyUrl_url, List.append_assoc, List.cons_append,
    splitScheme_append l.scheme_head l.scheme_chars]
  simp only [if_neg hscheme]
  by_cases hspecial : l.scheme.map Char.toLower ∈ specialSchemes
  · -- The slashes a user begins with are skipped with those before the authority.
    have hslashes (t rest : Text) : (t ++ ':' :: rest).dropWhile (fun x ↦ x = '/' || x = '\\') =
        t.dropWhile (fun x ↦ x = '/' || x = '\\') ++ ':' :: rest := by
      induction t with
      | nil => simp
      | cons x t ih =>
        cases hx : (x = '/' || x = '\\' : Bool) with
        | true => simpa [hx] using ih
        | false => simp [hx]
    simp [hspecial, Location.special, readInfo, readUser, hslashes]
  · simp [hspecial, Location.special, readInfo, readUser]

theorem notMem_scheme (l : Location) (hx : isSchemeChar x = false) : x ∉ l.scheme := by
  intro hmem
  have := l.scheme_chars x hmem
  simp [hx] at this

theorem notMem_secret (c : Credentials) (hx : isSecretChar x = false) : x ∉ c.secret := by
  intro hmem
  have := c.secret_chars x hmem
  simp [hx] at this

theorem notMem_readInfo (special : Bool) (c : Credentials) : '@' ∉ readInfo special c := by
  have huser : '@' ∉ readUser special c.user := by
    intro hmem
    unfold readUser dropTabs at hmem
    split at hmem
    · exact c.user_chars (List.mem_of_mem_filter ((List.dropWhile_suffix _).subset hmem))
    · exact c.user_chars (List.mem_of_mem_filter hmem)
  have hsecret := notMem_secret c (x := '@') (by decide)
  simp [readInfo, huser, hsecret]

/-- No character of the credentials ends the authority. -/
theorem readInfo_clean_iff : (∀ x ∈ readInfo special c, endsAuthority special x = false) ↔
    (∀ x ∈ readUser special c.user, endsAuthority special x = false) ∧ '/' ∉ c.secret := by
  have hsecret : (∀ x ∈ c.secret, endsAuthority special x = false) ↔ '/' ∉ c.secret := by
    constructor
    · intro h hmem
      simpa [endsAuthority] using h '/' hmem
    · intro h x hx
      by_contra hends
      simp only [endsAuthority, Bool.not_eq_false, Bool.or_eq_true, Bool.and_eq_true,
        decide_eq_true_eq] at hends
      rcases hends with ((rfl | rfl) | rfl) | ⟨-, rfl⟩
      · exact h hx
      all_goals exact notMem_secret c (by decide) hx
  have hcolon : endsAuthority special ':' = false := by simp [endsAuthority]
  simp only [readInfo, List.forall_mem_append, List.forall_mem_cons, hsecret, hcolon, true_and]

/-- The parsed user name or password holds something exactly when a user or a secret was read. -/
theorem userinfo_iff : ((readInfo special c).takeWhile (· ≠ ':') ≠ [] ∨
    ((readInfo special c).dropWhile (· ≠ ':')).tail ≠ []) ↔
      (readUser special c.user ≠ [] ∨ c.secret ≠ []) := by
  unfold readInfo
  cases readUser special c.user with
  | nil => simp
  | cons x xs =>
    by_cases hx : x = ':'
    · subst hx
      simp
    · simp [hx]

/-- The host has no at sign. -/
theorem notMem_hostText (l : Location) : '@' ∉ l.hostText := by
  intro hmem
  have hhost : '@' ∈ l.host := by
    rcases l.path_head with hpath | hpath
    · have htail := (List.takeWhile_prefix _).subset hmem
      rw [Location.tail, hpath, List.append_nil] at htail
      exact (List.rdropWhile_prefix _ _).subset (List.mem_of_mem_filter htail)
    · obtain ⟨rest, hrest⟩ := List.head?_eq_some_iff.mp hpath
      rw [Location.hostText, Location.tail, hrest, rdropWhile_append_cons _ _ (by decide),
        dropTabs_append, dropTabs_cons (by decide), List.takeWhile_append] at hmem
      split at hmem
      · rw [List.takeWhile_cons_of_neg (by simp [endsAuthority]), List.append_nil] at hmem
        exact List.mem_of_mem_filter hmem
      · exact List.mem_of_mem_filter ((List.takeWhile_prefix _).subset hmem)
  exact (l.host_chars '@' hhost).2 rfl

/-- What is shown for a URL with credentials. -/
theorem redactStorageUrl_url_of_recognised (h : Recognised p l c) :
    ∃ host, p.hostAndPort l.special l.hostText = some host ∧
      redactStorageUrl p (l.url c) = redactedStart ++ '@' :: (p.setHost host ++
        p.setPath (p.path l.special (l.tail.dropWhile (!endsAuthority l.special ·)))) := by
  obtain ⟨host, hhost⟩ := Option.ne_none_iff_exists'.mp h.host.2
  refine ⟨host, hhost, ?_⟩
  have hparse := parseAuthority_of_clean (p := p) (readInfo_clean_iff.mpr ⟨h.user, h.secret⟩)
    (notMem_hostText l)
  change _ = if l.hostText = [] then _ else (p.hostAndPort l.special l.hostText).map _ at hparse
  rw [if_neg h.host.1, hhost] at hparse
  unfold redactStorageUrl
  rw [parseUrl_url h.scheme, hparse]
  simp only [Option.map_some]
  rw [if_pos (userinfo_iff.mpr h.some)]
  rfl

/-- Credentials that the parser finds are recognised. -/
theorem recognised_of_parseUrl {u : Url} (h : parseUrl p (l.url c) = some u)
    (hu : u.username ≠ [] ∨ u.password ≠ []) : Recognised p l c := by
  by_cases hscheme : l.scheme.map Char.toLower = fileScheme
  · unfold parseUrl at h
    rw [tidyUrl_url, List.append_assoc, List.cons_append,
      splitScheme_append l.scheme_head l.scheme_chars] at h
    simp only [if_pos hscheme] at h
    obtain ⟨host, -, rfl⟩ := Option.map_eq_some_iff.mp h
    simp at hu
  · rw [parseUrl_url hscheme] at h
    by_cases hclean : ∀ x ∈ readInfo l.special c, endsAuthority l.special x = false
    · rw [parseAuthority_of_clean hclean (notMem_hostText l)] at h
      change (if l.hostText = [] then none else (p.hostAndPort l.special l.hostText).map _) = _ at h
      split at h
      · cases h
      · next hhost =>
        obtain ⟨host, hparse, rfl⟩ := Option.map_eq_some_iff.mp h
        obtain ⟨huser, hsecret⟩ := readInfo_clean_iff.mp hclean
        exact ⟨hscheme, ⟨hhost, by simp [hparse]⟩, huser, hsecret, userinfo_iff.mp hu⟩
    · push Not at hclean
      obtain ⟨x, hx, hends⟩ := hclean
      obtain ⟨hname, hpassword⟩ := credentials_of_parseAuthority hx (by simpa using hends)
        (notMem_readInfo l.special c) h
      simp [hname, hpassword] at hu

/-- Credentials that are not recognised are shown. -/
theorem redactStorageUrl_url_of_not_recognised (h : ¬ Recognised p l c) :
    redactStorageUrl p (l.url c) = l.url c := by
  unfold redactStorageUrl
  cases hparse : parseUrl p (l.url c) with
  | none => rfl
  | some u =>
    simp only
    rw [if_neg]
    exact fun hu ↦ h (recognised_of_parseUrl hparse hu)

/-! ### Two URLs that differ in their credentials -/

theorem url_inj (h : l.url c = l.url c') : c = c' := by
  have hinfo : ':' :: '/' :: '/' :: (c.user ++ ':' :: c.secret) =
      ':' :: '/' :: '/' :: (c'.user ++ ':' :: c'.secret) :=
    List.append_cancel_left (List.append_cancel_right h)
  have hpair : c.user ++ ':' :: c.secret = c'.user ++ ':' :: c'.secret := by simpa using hinfo
  have hrev := congrArg List.reverse hpair
  simp only [List.reverse_append, List.reverse_cons, List.append_assoc, List.singleton_append]
    at hrev
  have hcolon := notMem_secret c (x := ':') (by decide)
  have hcolon' := notMem_secret c' (x := ':') (by decide)
  obtain ⟨hsecret, huser⟩ := append_sep_inj (by simpa using hcolon) (by simpa using hcolon') hrev
  exact Credentials.ext (List.reverse_injective huser) (List.reverse_injective hsecret)

/-- A URL with credentials does not look redacted. -/
theorem url_ne_redacted (l : Location) (c : Credentials) (rest : Text) :
    l.url c ≠ redactedStart ++ '@' :: rest := by
  intro h
  have hat : '@' ∉ l.scheme ++ ':' :: '/' :: '/' :: (c.user ++ ':' :: c.secret) := by
    have hsecret := notMem_secret c (x := '@') (by decide)
    simp [notMem_scheme l (x := '@') (by decide), c.user_chars, hsecret]
  have hstart := (append_sep_inj hat (by decide) h).1
  have hrest : '/' :: '/' :: (c.user ++ ':' :: c.secret) = ['/', '/', '*', '*', '*'] :=
    (append_sep_inj (t := ['s', '3']) (notMem_scheme l (by decide)) (by decide) hstart).2
  have hcolon : ':' ∈ ['/', '/', '*', '*', '*'] := hrest ▸ by simp
  simp at hcolon

/-- The two URLs are shown alike exactly when both are redacted or they are one URL. -/
theorem redactStorageUrl_eq_iff :
    redactStorageUrl p (l.url c) = redactStorageUrl p (l.url c') ↔
      (Recognised p l c ∧ Recognised p l c') ∨ c = c' := by
  constructor
  · intro h
    by_cases hc : Recognised p l c
    · by_cases hc' : Recognised p l c'
      · exact .inl ⟨hc, hc'⟩
      · obtain ⟨host, -, hshown⟩ := redactStorageUrl_url_of_recognised hc
        rw [hshown, redactStorageUrl_url_of_not_recognised hc'] at h
        exact absurd h.symm (url_ne_redacted l c' _)
    · rw [redactStorageUrl_url_of_not_recognised hc] at h
      by_cases hc' : Recognised p l c'
      · obtain ⟨host, -, hshown⟩ := redactStorageUrl_url_of_recognised hc'
        rw [hshown] at h
        exact absurd h (url_ne_redacted l c _)
      · rw [redactStorageUrl_url_of_not_recognised hc'] at h
        exact .inr (url_inj h)
  · rintro (⟨hc, hc'⟩ | rfl)
    · obtain ⟨host, hhost, hshown⟩ := redactStorageUrl_url_of_recognised hc
      obtain ⟨host', hhost', hshown'⟩ := redactStorageUrl_url_of_recognised hc'
      cases hhost.symm.trans hhost'
      rw [hshown, hshown']
    · rfl

/-- The backend in a row is the scheme. -/
theorem headD_splitOn_url (l : Location) (c : Credentials) :
    ((l.url c).splitOn ':').headD ['?'] = l.scheme := by
  rw [Location.url, List.append_assoc, List.cons_append, List.splitOn_append_cons_self,
    List.splitOn_eq_singleton (notMem_scheme l (by decide))]
  rfl

/-- What is shown and what is recorded do not depend on the credentials exactly when both pairs
are recognised, or they are one pair. -/
theorem redaction_hides_iff (p : UrlParts) (l : Location) (c c' : Credentials) :
    (redactStorageUrl p (l.url c) = redactStorageUrl p (l.url c') ∧
      ∀ mountpoint readOnly env db, env.redactStorageUrl = redactStorageUrl p →
        recordMount (l.url c) mountpoint readOnly env db =
          recordMount (l.url c') mountpoint readOnly env db) ↔
      (Recognised p l c ∧ Recognised p l c') ∨ c = c' := by
  rw [← redactStorageUrl_eq_iff]
  refine ⟨And.left, fun hshown ↦ ⟨hshown, fun mountpoint readOnly env db henv ↦ ?_⟩⟩
  have hmount : recordedMount (l.url c) mountpoint readOnly env =
      recordedMount (l.url c') mountpoint readOnly env := by
    simp only [recordedMount, henv, hshown, headD_splitOn_url]
  rw [recordMount, recordMount, hmount]

/-- Hosts and ports without an encoding: a port is a number. -/
def plainParts : UrlParts where
  hostAndPort _ t :=
    match t.splitOn ':' with
    | [host] => some host
    | [host, port] => if port.all Char.isDigit then some host else none
    | _ => none
  path _ t := t.takeWhile (fun c ↦ c ≠ '?' && c ≠ '#')
  fileUrl t := some (none, t)
  pathUrl t := some t
  setHost t := t
  setPath t := t

/-- A bucket. -/
def bucket : Location where
  scheme := ['s', '3']
  host := ['h']
  path := ['/', 'b']
  scheme_head := by decide
  scheme_chars := by simp [isSchemeChar]
  host_chars := by simp [endsAuthority]
  path_head := by simp

/-- A secret with a slash. -/
def slashedSecret : Credentials where
  user := ['A']
  secret := ['k', '/', '1']
  user_chars := by simp
  secret_chars := by simp [isSecretChar]

/-- A secret without one. -/
def plainSecret : Credentials where
  user := ['A']
  secret := ['k', '1']
  user_chars := by simp
  secret_chars := by simp [isSecretChar]

/-- A slash in the secret ends the authority: the URL is not accepted and shown as it is. -/
theorem slashed_secret_shown :
    redactStorageUrl plainParts (bucket.url plainSecret) = "s3://***@h/b".toList ∧
    redactStorageUrl plainParts (bucket.url slashedSecret) = "s3://A:k/1@h/b".toList := by
  decide

end Mntrs.Mount

import Mntrs.Base.Paging
import Mntrs.Fs.BatchLookup
import Mntrs.WinFsp.Adapter

/-!
# Enumeration of a directory by WinFSP

Models `read_directory` with `match_wildcard` (`src/src/core_fs/winfsp.rs:400-441,3471-3637`) and
`readdir_with_attrs` (`src/src/lib.rs:4508-4564`). The kernel asks for one page after the other,
each time with the last name it was given, until a page carries the end mark. The entries of a
handle are in the order of a hash map, the next page is found by a binary search for the name,
and every page is closed with the end mark if there is room for it, whether or not entries are
left.
-/

namespace Mntrs

open Base

variable {k n : Nat} {marker : Option Path}

/-! ### The callback -/

/-- `wildcard_match_inner`. -/
def wildcardMatchInner : Bytes → Bytes → Bool
  | [], [] => true
  | [], _ :: _ => false
  | p :: pat, [] => if p = '*'.toUInt8 then wildcardMatchInner pat [] else false
  | p :: pat, b :: name =>
    if p = '*'.toUInt8 then
      wildcardMatchInner pat (b :: name) || wildcardMatchInner (p :: pat) name
    else if p = '?'.toUInt8 ∨ p = b then wildcardMatchInner pat name
    else false
termination_by pat name => pat.length + name.length

/-- The filter of a page: `match_wildcard` without regard to case, and no pattern matches all. -/
def matchesPattern (cfg : Config) (pattern : Option Path) (name : Path) : Bool :=
  pattern.all (fun pat ↦
    wildcardMatchInner (utf8 (cfg.toLowercase pat)) (utf8 (cfg.toLowercase name)))

/-- What the callback uses of WinFSP: whether `set_name_raw` takes a name, what
`FspFileSystemAddDirInfo` needs for its entry, and what it needs for the NULL entry. -/
structure DirInfoApi where
  nameFits : Path → Bool
  entrySize : Path → Nat
  markSize : Nat
  markSize_le : ∀ name, markSize ≤ entrySize name

/-- A filled buffer: its entries, and whether the NULL entry follows them. -/
structure DirPage where
  delivered : List (CoreDirEntry × FileAttr)
  endMark : Bool

/-- How `read_directory` fails. -/
inductive ReadDirectoryError where
  | invalidDeviceRequest
  | inner (e : IoError)
  | nameTooLong
deriving DecidableEq, Repr

/-- `readdir_with_attrs`: the entries after the marker whose attributes are found. `search` is
`slice::partition_point`. -/
def readdirWithAttrs (cfg : Config) (search : (CoreDirEntry → Bool) → List CoreDirEntry → Nat)
    (fs : MntrsFs) (ino : Ino) (fh : Fh) (marker : Path) (env : Nat → StatEnv) (now : Nat) :
    Except IoError (List (CoreDirEntry × FileAttr)) × MntrsFs :=
  match fs.dirListers.lookup fh with
  | none =>
    (.error ⟨.notFound, "readdir_with_attrs(ino=" ++ toString ino ++ ", fh=" ++ toString fh ++
      "): unknown dir-lister handle", none⟩, fs)
  | some entries =>
    let cut := if marker.isEmpty then 0 else search (fun e ↦ e.name ≤ marker) entries
    let page := entries.drop cut
    let (attrs, fs) := batchLookupFromDirCache cfg fs ino (page.map CoreDirEntry.name) env now
    (.ok ((page.zip attrs).filterMap (fun (e, res) ↦ res.toOption.map (fun attr ↦ (e, attr)))), fs)

/-- The loop over the entries: those that match are added until one does not fit. -/
def fillBuffer (cfg : Config) (api : DirInfoApi) (pattern : Option Path) (room : Nat) :
    Nat → List (CoreDirEntry × FileAttr) →
      Except ReadDirectoryError (List (CoreDirEntry × FileAttr) × Nat)
  | cursor, [] => .ok ([], cursor)
  | cursor, (e, attr) :: rest =>
    if matchesPattern cfg pattern e.name then
      if api.nameFits e.name then
        if cursor + api.entrySize e.name ≤ room then
          match fillBuffer cfg api pattern room (cursor + api.entrySize e.name) rest with
          | .ok (delivered, stop) => .ok ((e, attr) :: delivered, stop)
          | .error err => .error err
        else .ok ([], cursor)
      else .error .nameTooLong
    else fillBuffer cfg api pattern room cursor rest

/-- `read_directory`. -/
def readDirectory (cfg : Config) (api : DirInfoApi)
    (search : (CoreDirEntry → Bool) → List CoreDirEntry → Nat) (fs : MntrsFs)
    (context : WinFspHandle) (pattern marker : Option Path) (room : Nat) (env : Nat → StatEnv)
    (now : Nat) : Except ReadDirectoryError DirPage × MntrsFs :=
  if context.isDir then
    match readdirWithAttrs cfg search fs context.ino context.dirFh (marker.getD []) env now with
    | (.error e, fs) => (.error (.inner e), fs)
    | (.ok entries, fs) =>
      match fillBuffer cfg api pattern room 0 entries with
      | .error err => (.error err, fs)
      | .ok (delivered, cursor) => (.ok ⟨delivered, cursor + api.markSize ≤ room⟩, fs)
  else (.error .invalidDeviceRequest, fs)

/-! ### The calls of an enumeration -/

/-- The marker of the next call. -/
def nextMarker (marker : Option Path) (page : DirPage) : Option Path :=
  (page.delivered.getLast?.map (fun d ↦ d.1.name)).or marker

/-- Calls until one of them carries the end mark; nothing if one fails or the calls run out. -/
def enumerate (call : Nat → Option Path → Except ReadDirectoryError DirPage) :
    Nat → Nat → Option Path → Option (List CoreDirEntry)
  | 0, _, _ => none
  | calls + 1, k, marker =>
    match call k marker with
    | .error _ => none
    | .ok page =>
      if page.endMark then some (page.delivered.map Prod.fst)
      else (enumerate call calls (k + 1) (nextMarker marker page)).map
        (page.delivered.map Prod.fst ++ ·)

/-- The snapshot of the handle holds through the enumeration, whatever happens between the calls,
and the attributes of its names are found. -/
structure Enumerable (cfg : Config) (context : WinFspHandle) (entries : List CoreDirEntry)
    (states : Nat → MntrsFs) (env : Nat → Nat → StatEnv) (now : Nat → Nat) : Prop where
  isDir : context.isDir = true
  snapshot : ∀ k, (states k).dirListers.lookup context.dirFh = some entries
  found : ∀ k cut, ∀ res ∈ (batchLookupFromDirCache cfg (states k) context.ino
    ((entries.drop cut).map CoreDirEntry.name) (env k) (now k)).1, ∃ attr, res = .ok attr

/-- The buffer holds any one entry of the directory, and the end mark. -/
structure DirInfoApi.Holds (api : DirInfoApi) (room : Nat) (entries : List CoreDirEntry) :
    Prop where
  entry : ∀ e ∈ entries, api.entrySize e.name ≤ room
  mark : api.markSize ≤ room

/-- The room that some entries take. -/
def DirInfoApi.total (api : DirInfoApi) (entries : List CoreDirEntry) : Nat :=
  (entries.map (fun e ↦ api.entrySize e.name)).sum

/-- The entries that are left are delivered in pages: they fit with the end mark, or some of them
fill the buffer so far that the end mark does not fit, the name of the last one splits the
directory, and the others come after it. -/
inductive Paged (api : DirInfoApi) (room : Nat) (entries : List CoreDirEntry) :
    List CoreDirEntry → Prop
  | last {rest : List CoreDirEntry} (hfits : api.total rest + api.markSize ≤ room) :
      Paged api room entries rest
  | full {page rest : List CoreDirEntry} {last : CoreDirEntry} (hlast : page.getLast? = some last)
      (hfits : api.total page ≤ room) (hfull : room < api.total page + api.markSize)
      (hname : last.name ≠ []) (hsplit : Partitioned (fun e ↦ e.name ≤ last.name) entries)
      (hafter : ∀ e ∈ rest, last.name < e.name) (hrest : Paged api room entries rest) :
      Paged api room entries (page ++ rest)

/-! ### What one call delivers -/

theorem length_batchHits (cfg : Config) (parent : Ino) (parentPath : Path)
    (cached : Option DirSnapshot) (now : Nat) (fs : MntrsFs) (names : List Path) :
    (batchHits cfg parent parentPath cached now fs names).1.length = names.length := by
  induction names generalizing fs with
  | nil => rfl
  | cons name names ih =>
    unfold batchHits
    split
    · simp [ih]
    · split <;> simp [ih]

theorem length_batchMisses (cfg : Config) (parent : Ino) (env : Nat → StatEnv) (i : Nat)
    (fs : MntrsFs) (slots : List (Path × Option FileAttr)) :
    (batchMisses cfg parent env i fs slots).1.length = slots.length := by
  induction slots generalizing i fs with
  | nil => rfl
  | cons slot slots ih =>
    obtain ⟨name, _ | attr⟩ := slot <;> simp [batchMisses, ih]

theorem length_batchLookupFromDirCache (cfg : Config) (fs : MntrsFs) (parent : Ino)
    (names : List Path) (env : Nat → StatEnv) (now : Nat) :
    (batchLookupFromDirCache cfg fs parent names env now).1.length = names.length := by
  simp [batchLookupFromDirCache, length_batchMisses, length_batchHits]

theorem map_fst_zip_filterMap {page : List CoreDirEntry} {answers : List (Except IoError FileAttr)}
    (hlength : answers.length = page.length) (hfound : ∀ res ∈ answers, ∃ attr, res = .ok attr) :
    ((page.zip answers).filterMap
      (fun (e, res) ↦ res.toOption.map (fun attr ↦ (e, attr)))).map Prod.fst = page := by
  induction page generalizing answers with
  | nil => rfl
  | cons e page ih =>
    cases answers with
    | nil => cases hlength
    | cons res answers =>
      obtain ⟨attr, rfl⟩ := hfound res List.mem_cons_self
      have hrest := ih (by simpa using hlength)
        (fun res' hres' ↦ hfound res' (List.mem_cons_of_mem _ hres'))
      simpa [Except.toOption] using hrest

section

variable {cfg : Config} {api : DirInfoApi} {pattern : Option Path} {room : Nat}

/-- The entries that match the pattern. -/
def matching (cfg : Config) (pattern : Option Path) (entries : List CoreDirEntry) :
    List CoreDirEntry :=
  entries.filter (fun e ↦ matchesPattern cfg pattern e.name)

variable {l out : List (CoreDirEntry × FileAttr)}

theorem fillBuffer_ok {cursor stop : Nat}
    (h : fillBuffer cfg api pattern room cursor l = .ok (out, stop)) (hcursor : cursor ≤ room) :
    out.map Prod.fst = takeFitting (fun e ↦ api.entrySize e.name) (room - cursor)
        (matching cfg pattern (l.map Prod.fst)) ∧
      stop = cursor + api.total (out.map Prod.fst) ∧ ∀ d ∈ out, api.nameFits d.1.name = true := by
  induction l generalizing cursor out with
  | nil =>
    cases h
    exact ⟨rfl, rfl, fun _ hd ↦ by cases hd⟩
  | cons d l ih =>
    obtain ⟨e, attr⟩ := d
    rw [fillBuffer] at h
    by_cases hmatch : matchesPattern cfg pattern e.name = true
    · have hmatching : matching cfg pattern (((e, attr) :: l).map Prod.fst) =
          e :: matching cfg pattern (l.map Prod.fst) := by
        simp [matching, hmatch]
      rw [hmatching]
      rw [if_pos hmatch] at h
      split at h
      · next hname =>
        split at h
        · next hfits =>
          split at h <;> cases h
          rename_i delivered stop' hrest
          obtain ⟨hout, hstop, hnames⟩ := ih hrest hfits
          refine ⟨?_, ?_, ?_⟩
          · rw [takeFitting, if_pos (by omega), List.map_cons, hout, Nat.sub_add_eq]
          · rw [hstop]
            simp only [DirInfoApi.total, List.map_cons, List.sum_cons]
            omega
          · intro d hd
            rcases List.mem_cons.mp hd with rfl | hd
            · exact hname
            · exact hnames d hd
        · next hfull =>
          cases h
          refine ⟨?_, rfl, fun _ hd ↦ by cases hd⟩
          rw [takeFitting, if_neg (by omega)]
          rfl
      · cases h
    · have hmatching : matching cfg pattern (((e, attr) :: l).map Prod.fst) =
          matching cfg pattern (l.map Prod.fst) := by
        simp [matching, hmatch]
      rw [hmatching]
      rw [if_neg hmatch] at h
      exact ih h hcursor

theorem exists_fillBuffer_of_names
    (hnames : ∀ e ∈ matching cfg pattern (l.map Prod.fst), api.nameFits e.name) (cursor : Nat) :
    ∃ out stop, fillBuffer cfg api pattern room cursor l = .ok (out, stop) := by
  induction l generalizing cursor with
  | nil => exact ⟨_, _, rfl⟩
  | cons d l ih =>
    obtain ⟨e, attr⟩ := d
    have hrest := ih (fun e' he' ↦ hnames e' (by
      simp only [matching, List.map_cons, List.mem_filter, List.mem_cons] at he' ⊢
      exact ⟨.inr he'.1, he'.2⟩))
    rw [fillBuffer]
    by_cases hmatch : matchesPattern cfg pattern e.name = true
    · rw [if_pos hmatch, if_pos (hnames e (by simp [matching, hmatch]))]
      split
      · obtain ⟨out, stop, hout⟩ := hrest (cursor + api.entrySize e.name)
        rw [hout]
        exact ⟨_, _, rfl⟩
      · exact ⟨_, _, rfl⟩
    · rw [if_neg hmatch]
      exact hrest cursor

theorem fillBuffer_congr {cursor stop : Nat} {l' : List (CoreDirEntry × FileAttr)}
    (hfst : l'.map Prod.fst = l.map Prod.fst)
    (h : fillBuffer cfg api pattern room cursor l = .ok (out, stop)) :
    ∃ out', fillBuffer cfg api pattern room cursor l' = .ok (out', stop) ∧
      out'.map Prod.fst = out.map Prod.fst := by
  induction l generalizing l' cursor out with
  | nil =>
    cases h
    rw [List.map_nil, List.map_eq_nil_iff] at hfst
    subst hfst
    exact ⟨[], rfl, rfl⟩
  | cons d l ih =>
    obtain ⟨d', l', rfl, hd, hl⟩ := List.map_eq_cons_iff.mp hfst
    obtain ⟨e, attr⟩ := d
    cases hd
    rw [fillBuffer] at h ⊢
    split at h
    · next hmatch =>
      rw [if_pos hmatch]
      split at h
      · next hname =>
        rw [if_pos hname]
        split at h
        · next hfits =>
          rw [if_pos hfits]
          split at h <;> cases h
          rename_i delivered stop' hrest
          obtain ⟨delivered', hrest', hsame⟩ := ih hl hrest
          rw [hrest']
          exact ⟨_, rfl, by rw [List.map_cons, List.map_cons, hsame]⟩
        · next hfull =>
          cases h
          rw [if_neg hfull]
          exact ⟨[], rfl, rfl⟩
      · cases h
    · next hmatch =>
      rw [if_neg hmatch]
      exact ih hl h

/-- What a call answers that looks at a part of the snapshot. -/
def Fills (cfg : Config) (api : DirInfoApi) (pattern : Option Path) (room : Nat)
    (view : List CoreDirEntry) (answer : Except ReadDirectoryError DirPage) : Prop :=
  ∃ l : List (CoreDirEntry × FileAttr), l.map Prod.fst = view ∧
    answer = match fillBuffer cfg api pattern room 0 l with
      | .error err => .error err
      | .ok (delivered, cursor) => .ok ⟨delivered, cursor + api.markSize ≤ room⟩

variable {view rest : List CoreDirEntry} {page : DirPage}
  {answer : Except ReadDirectoryError DirPage}

theorem Fills.ok (h : Fills cfg api pattern room view (.ok page)) :
    page.delivered.map Prod.fst =
        takeFitting (fun e ↦ api.entrySize e.name) room (matching cfg pattern view) ∧
      (page.endMark = true ↔ api.total (page.delivered.map Prod.fst) + api.markSize ≤ room) ∧
      ∀ e ∈ page.delivered.map Prod.fst, api.nameFits e.name = true := by
  obtain ⟨l, hview, hcall⟩ := h
  split at hcall <;> cases hcall
  rename_i delivered cursor hfill
  obtain ⟨hout, hstop, hnames⟩ := fillBuffer_ok hfill (Nat.zero_le _)
  rw [hview] at hout
  refine ⟨hout, ?_, ?_⟩
  · rw [hstop, Nat.zero_add]
    exact decide_eq_true_iff
  · intro e he
    obtain ⟨d, hd, rfl⟩ := List.mem_map.mp he
    exact hnames d hd

theorem Fills.exists_page (h : Fills cfg api pattern room view answer)
    (hview : matching cfg pattern view = rest)
    (hnames : ∀ e ∈ rest, api.nameFits e.name) :
    ∃ page, answer = .ok page ∧
      page.delivered.map Prod.fst = takeFitting (fun e ↦ api.entrySize e.name) room rest ∧
      (page.endMark = true ↔ api.total (page.delivered.map Prod.fst) + api.markSize ≤ room) := by
  have hfills := h
  obtain ⟨l, hl, hcall⟩ := h
  obtain ⟨out, stop, hfill⟩ := @exists_fillBuffer_of_names cfg api pattern room l
    (by rw [hl, hview]; exact hnames) 0
  rw [hfill] at hcall
  rw [hcall] at hfills
  obtain ⟨hdelivered, hmark, -⟩ := hfills.ok
  exact ⟨_, hcall, hview ▸ hdelivered, hmark⟩

/-- Two calls that look at the same part deliver the same entries. -/
theorem Fills.congr (h : Fills cfg api pattern room view (.ok page))
    (h' : Fills cfg api pattern room view answer) :
    ∃ page', answer = .ok page' ∧
      page'.delivered.map Prod.fst = page.delivered.map Prod.fst ∧
      page'.endMark = page.endMark := by
  obtain ⟨l, hl, hcall⟩ := h
  obtain ⟨l', hl', hcall'⟩ := h'
  split at hcall <;> cases hcall
  rename_i hfill
  obtain ⟨out', hfill', hout'⟩ := fillBuffer_congr (hl'.trans hl.symm) hfill
  rw [hfill'] at hcall'
  exact ⟨_, hcall', hout', rfl⟩

end

/-! ### What an enumeration delivers -/

/-- The calls of an enumeration, each in a state of its own. -/
def directoryCalls (cfg : Config) (api : DirInfoApi)
    (search : (CoreDirEntry → Bool) → List CoreDirEntry → Nat) (context : WinFspHandle)
    (pattern : Option Path) (room : Nat) (states : Nat → MntrsFs) (env : Nat → Nat → StatEnv)
    (now : Nat → Nat) (k : Nat) (marker : Option Path) : Except ReadDirectoryError DirPage :=
  (readDirectory cfg api search (states k) context pattern marker room (env k) (now k)).1

/-- The part of the snapshot that a call looks at. -/
def viewFrom (search : (CoreDirEntry → Bool) → List CoreDirEntry → Nat)
    (entries : List CoreDirEntry) (marker : Path) : List CoreDirEntry :=
  entries.drop (if marker.isEmpty then 0 else search (fun e ↦ e.name ≤ marker) entries)

section

variable {cfg : Config} {api : DirInfoApi} {pattern : Option Path} {room : Nat}
  {entries front rest delivered : List CoreDirEntry} {last : CoreDirEntry} {page : DirPage}
  {search : (CoreDirEntry → Bool) → List CoreDirEntry → Nat}
  {call : Nat → Option Path → Except ReadDirectoryError DirPage}

/-- An enumeration that comes to its end starts with a page that is the last one, or goes on after
it. -/
theorem enumerate_some (h : enumerate call n k marker = some delivered) :
    ∃ page m, n = m + 1 ∧ call k marker = .ok page ∧
      (page.endMark = true ∧ delivered = page.delivered.map Prod.fst ∨
        page.endMark = false ∧ ∃ rest,
          enumerate call m (k + 1) (nextMarker marker page) = some rest ∧
            delivered = page.delivered.map Prod.fst ++ rest) := by
  cases n with
  | zero => cases h
  | succ m =>
    rw [enumerate] at h
    split at h
    · cases h
    · next page hpage =>
      refine ⟨page, m, rfl, hpage, ?_⟩
      split at h
      · next hmark => exact .inl ⟨hmark, (Option.some.inj h).symm⟩
      · next hmark =>
        obtain ⟨rest, hrest, rfl⟩ := Option.map_eq_some_iff.mp h
        exact .inr ⟨by simpa using hmark, rest, hrest, rfl⟩

theorem nextMarker_of_getLast? (hlast : (page.delivered.map Prod.fst).getLast? = some last) :
    nextMarker marker page = some last.name := by
  rw [List.getLast?_map] at hlast
  obtain ⟨d, hd, rfl⟩ := Option.map_eq_some_iff.mp hlast
  simp [nextMarker, hd]

theorem nextMarker_of_nil (hlast : (page.delivered.map Prod.fst).getLast? = none) :
    nextMarker marker page = marker := by
  rw [List.getLast?_eq_none_iff, List.map_eq_nil_iff] at hlast
  simp [nextMarker, hlast]

theorem matching_dropWhile {p : CoreDirEntry → Bool} (hsplit : Partitioned p entries)
    (hmatching : matching cfg pattern entries = front ++ rest) (hlast : front.getLast? = some last)
    (hp : p last) (hrest : ∀ e ∈ rest, p e = false) :
    matching cfg pattern (entries.dropWhile p) = rest := by
  have hparts : matching cfg pattern (entries.takeWhile p) ++
      matching cfg pattern (entries.dropWhile p) = front ++ rest := by
    rw [← hmatching, matching, matching, matching, ← List.filter_append,
      List.takeWhile_append_dropWhile]
  have hbefore : ∀ e ∈ matching cfg pattern (entries.takeWhile p), p e = true :=
    fun e he ↦ List.all_eq_true.mp List.all_takeWhile e (List.mem_filter.mp he).1
  have hafter : ∀ e ∈ matching cfg pattern (entries.dropWhile p), p e = false :=
    fun e he ↦ hsplit e (List.mem_filter.mp he).1
  rcases List.append_eq_append_iff.mp hparts with ⟨mid, hfront, hend⟩ | ⟨mid, hfront, hend⟩
  · -- nothing of the front comes after the split, its last entry does not
    rcases List.eq_nil_or_concat mid with rfl | ⟨mid', e, rfl⟩
    · exact hend
    · have he : e = last := by
        rw [hfront] at hlast
        simpa using hlast
      have hfalse := hafter e (by rw [hend]; simp)
      rw [he, hp] at hfalse
      cases hfalse
  · cases mid with
    | nil => exact hend.symm
    | cons e mid =>
      have htrue := hbefore e (by rw [hfront]; simp)
      have hfalse := hrest e (by rw [hend]; simp)
      rw [htrue] at hfalse
      cases hfalse

/-- After a page whose last name splits the directory, a call looks at the entries after it. -/
theorem matching_viewFrom (hsearch : IsPartitionPoint search) (hname : last.name ≠ [])
    (hsplit : Partitioned (fun e ↦ e.name ≤ last.name) entries)
    (hmatching : matching cfg pattern entries = front ++ rest) (hlast : front.getLast? = some last)
    (hafter : ∀ e ∈ rest, last.name < e.name) :
    matching cfg pattern (viewFrom search entries last.name) = rest := by
  rw [viewFrom, if_neg (by simpa using hname), hsearch _ _ hsplit]
  refine matching_dropWhile hsplit hmatching hlast (decide_eq_true (le_refl _)) ?_
  intro e he
  exact decide_eq_false (not_le.mpr (hafter e he))

theorem enumerate_unique {n' : Nat} {delivered' : List CoreDirEntry}
    (h : enumerate call n k marker = some delivered)
    (h' : enumerate call n' k marker = some delivered') : delivered' = delivered := by
  induction n generalizing n' k marker delivered delivered' with
  | zero => cases h
  | succ n ih =>
    obtain ⟨page, m, hm, hcall, hcases⟩ := enumerate_some h
    obtain ⟨page', m', -, hcall', hcases'⟩ := enumerate_some h'
    obtain rfl := Nat.succ.inj hm
    obtain rfl : page = page' := Except.ok.inj (hcall.symm.trans hcall')
    rcases hcases with ⟨hmark, rfl⟩ | ⟨hmark, rest, hrest, rfl⟩ <;>
      rcases hcases' with ⟨hmark', rfl⟩ | ⟨hmark', rest', hrest', rfl⟩
    · rfl
    · rw [hmark] at hmark'
      cases hmark'
    · rw [hmark] at hmark'
      cases hmark'
    · rw [ih hrest hrest']

/-- Every call of an enumeration fills its page from the snapshot. -/
def Serves (cfg : Config) (api : DirInfoApi) (pattern : Option Path) (room : Nat)
    (entries : List CoreDirEntry) (search : (CoreDirEntry → Bool) → List CoreDirEntry → Nat)
    (call : Nat → Option Path → Except ReadDirectoryError DirPage) : Prop :=
  ∀ k marker, Fills cfg api pattern room (viewFrom search entries (marker.getD [])) (call k marker)

theorem Enumerable.serves {context : WinFspHandle} {states : Nat → MntrsFs}
    {env : Nat → Nat → StatEnv} {now : Nat → Nat}
    (h : Enumerable cfg context entries states env now) :
    Serves cfg api pattern room entries search
      (directoryCalls cfg api search context pattern room states env now) := by
  intro k marker
  set cut := if (marker.getD []).isEmpty then 0
    else search (fun e ↦ e.name ≤ marker.getD []) entries with hcut
  set batch := batchLookupFromDirCache cfg (states k) context.ino
    ((entries.drop cut).map CoreDirEntry.name) (env k) (now k) with hbatch
  refine ⟨((entries.drop cut).zip batch.1).filterMap
    (fun (e, res) ↦ res.toOption.map (fun attr ↦ (e, attr))), ?_, ?_⟩
  · apply map_fst_zip_filterMap
    · rw [length_batchLookupFromDirCache, List.length_map]
    · exact h.found k cut
  · simp only [directoryCalls, readDirectory, if_pos h.isDir, readdirWithAttrs, h.snapshot k,
      ← hcut, ← hbatch]
    cases fillBuffer cfg api pattern room 0 _ <;> rfl

section

variable (h : Serves cfg api pattern room entries search call)
include h

theorem exists_enumerate_of_paged (hsearch : IsPartitionPoint search)
    (hnames : ∀ e ∈ matching cfg pattern entries, api.nameFits e.name)
    (hpaged : Paged api room entries rest)
    (hmatching : matching cfg pattern entries = front ++ rest)
    (hview : matching cfg pattern (viewFrom search entries (marker.getD [])) = rest) :
    ∃ n, enumerate call n k marker = some rest := by
  induction hpaged generalizing front k marker with
  | @last rest hfits =>
    obtain ⟨first, hcall, hdelivered, hmark⟩ := (h k marker).exists_page hview
      (fun e he ↦ hnames e (hmatching ▸ List.mem_append_right _ he))
    have hall : first.delivered.map Prod.fst = rest := by
      rw [hdelivered]
      have hfront : takeFitting (fun e : CoreDirEntry ↦ api.entrySize e.name) room (rest ++ []) =
          rest := by
        refine takeFitting_append ((Nat.le_add_right _ _).trans hfits) ?_
        intro e he
        cases he
      rwa [List.append_nil] at hfront
    rw [hall] at hmark
    refine ⟨1, ?_⟩
    rw [enumerate, hcall]
    simp [if_pos (hmark.mpr hfits), hall]
  | @full page rest last hlast hfits hfull hname hsplit hafter hrest ih =>
    obtain ⟨first, hcall, hdelivered, hmark⟩ := (h k marker).exists_page hview
      (fun e he ↦ hnames e (hmatching ▸ List.mem_append_right _ he))
    have hpage : first.delivered.map Prod.fst = page := by
      rw [hdelivered]
      refine takeFitting_append hfits ?_
      intro e _
      exact hfull.trans_le (Nat.add_le_add_left (api.markSize_le e.name) _)
    rw [hpage] at hmark
    have hmarker : nextMarker marker first = some last.name :=
      nextMarker_of_getLast? (hpage ▸ hlast)
    rw [← List.append_assoc] at hmatching
    have hend : (front ++ page).getLast? = some last := by
      rw [List.getLast?_append, hlast]
      rfl
    obtain ⟨n, hn⟩ := @ih (k + 1) (some last.name) (front ++ page) hmatching
      (matching_viewFrom hsearch hname hsplit hmatching hend hafter)
    refine ⟨n + 1, ?_⟩
    rw [enumerate, hcall]
    simp only [if_neg (show ¬ first.endMark = true by rw [hmark]; omega), hmarker, hn, hpage,
      Option.map_some]

/-- A call that looks at the same part of the snapshot delivers the same entries, and the
enumeration goes on in the same way. -/
theorem enumerate_of_view_eq {k' : Nat} {marker' : Option Path}
    (hview : viewFrom search entries (marker'.getD []) = viewFrom search entries (marker.getD []))
    (hrun : enumerate call n k marker = some delivered) :
    enumerate call n k' marker' = some delivered := by
  induction n generalizing k k' marker marker' delivered with
  | zero => cases hrun
  | succ n ih =>
    obtain ⟨page, m, hm, hcall, hcases⟩ := enumerate_some hrun
    obtain rfl := Nat.succ.inj hm
    obtain ⟨page', hcall', hsame, hmark'⟩ :=
      Fills.congr (hcall ▸ h k marker) (hview ▸ h k' marker')
    rw [enumerate, hcall']
    simp only [hmark', hsame]
    rcases hcases with ⟨hmark, rfl⟩ | ⟨hmark, rest, hrest, rfl⟩
    · rw [if_pos hmark]
    · rw [if_neg (by rw [hmark]; exact Bool.false_ne_true), Option.map_eq_some_iff]
      refine ⟨rest, ih ?_ hrest, rfl⟩
      -- the next markers are the same name, or both pages are empty
      cases hlast : (page.delivered.map Prod.fst).getLast? with
      | none =>
        rw [nextMarker_of_nil hlast, nextMarker_of_nil (hsame ▸ hlast)]
        exact hview
      | some last => rw [nextMarker_of_getLast? hlast, nextMarker_of_getLast? (hsame ▸ hlast)]

theorem delivered_after {bound : Path} (hsearch : IsPartitionPoint search)
    (hskip : ∀ p, ¬ Partitioned p entries → entries.drop (search p entries) = [])
    (hview : ∀ e ∈ viewFrom search entries (marker.getD []), bound < e.name)
    (hrun : enumerate call n k marker = some delivered) : ∀ e ∈ delivered, bound < e.name := by
  induction n generalizing k marker delivered with
  | zero => cases hrun
  | succ n ih =>
    obtain ⟨page, m, hm, hcall, hcases⟩ := enumerate_some hrun
    obtain rfl := Nat.succ.inj hm
    have hpage : ∀ e ∈ page.delivered.map Prod.fst, bound < e.name := by
      intro e he
      rw [(Fills.ok (hcall ▸ h k marker)).1] at he
      exact hview e (List.mem_filter.mp (mem_of_mem_takeFitting he)).1
    rcases hcases with ⟨-, rfl⟩ | ⟨-, rest, hrest, rfl⟩
    · exact hpage
    · intro e he
      rcases List.mem_append.mp he with he | he
      · exact hpage e he
      · refine ih ?_ hrest e he
        cases hlast : (page.delivered.map Prod.fst).getLast? with
        | none =>
          rw [nextMarker_of_nil hlast]
          exact hview
        | some last =>
          rw [nextMarker_of_getLast? hlast, Option.getD_some]
          have hbound := hpage last (List.mem_of_getLast? hlast)
          have hname : last.name ≠ [] := by
            intro hnil
            rw [hnil] at hbound
            exact List.not_lt_nil _ hbound
          intro e' he'
          rw [viewFrom, if_neg (by simpa using hname)] at he'
          by_cases hsplit : Partitioned (fun e ↦ decide (e.name ≤ last.name)) entries
          · rw [hsearch _ _ hsplit] at he'
            exact hbound.trans (not_le.mp (of_decide_eq_false (hsplit e' he')))
          · rw [hskip _ hsplit] at he'
            cases he'

/-- The first page of an enumeration of what is left: the end mark follows it, or the enumeration
goes on after its last name. -/
theorem enumerate_first_page {page rest' : List CoreDirEntry}
    (hview : matching cfg pattern (viewFrom search entries (marker.getD [])) = rest)
    (hpage : takeFitting (fun e : CoreDirEntry ↦ api.entrySize e.name) room rest = page)
    (hrest : rest = page ++ rest') (hrun : enumerate call n k marker = some delivered)
    (hperm : delivered.Perm rest) :
    (∀ e ∈ page, api.nameFits e.name = true) ∧
      (api.total page + api.markSize ≤ room ∧ page.Perm rest ∨
        room < api.total page + api.markSize ∧ ∀ last, page.getLast? = some last →
          ∃ n delivered, enumerate call n (k + 1) (some last.name) = some delivered ∧
            delivered.Perm rest') := by
  obtain ⟨first, m, -, hcall, hcases⟩ := enumerate_some hrun
  obtain ⟨hdelivered, hmark, hnames⟩ := Fills.ok (hcall ▸ h k marker)
  rw [hview, hpage] at hdelivered
  rw [hdelivered] at hmark hnames hcases
  refine ⟨hnames, ?_⟩
  rcases hcases with ⟨hend, rfl⟩ | ⟨hend, more, hmore, rfl⟩
  · exact .inl ⟨hmark.mp hend, hperm⟩
  · refine .inr ⟨?_, ?_⟩
    · rw [← Nat.not_le, ← hmark, hend]
      exact Bool.false_ne_true
    · intro last hlast
      refine ⟨m, more, ?_, ?_⟩
      · rw [← nextMarker_of_getLast? (hdelivered ▸ hlast)]
        exact hmore
      · rw [hrest] at hperm
        exact (List.perm_append_left_iff _).mp hperm

end

section

variable {calls : ((CoreDirEntry → Bool) → List CoreDirEntry → Nat) →
  Nat → Option Path → Except ReadDirectoryError DirPage}

/-- Whatever the search answers where it need not answer anything in particular, the calls deliver
the entries. -/
def Completes (calls : ((CoreDirEntry → Bool) → List CoreDirEntry → Nat) →
    Nat → Option Path → Except ReadDirectoryError DirPage) (k : Nat) (marker : Option Path)
    (rest : List CoreDirEntry) : Prop :=
  ∀ search, IsPartitionPoint search →
    ∃ n delivered, enumerate (calls search) n k marker = some delivered ∧ delivered.Perm rest

/-- If the enumeration is complete, what is left is delivered in pages. -/
theorem paged_of_complete
    (h : ∀ search, Serves cfg api pattern room entries search (calls search))
    (hroom : api.Holds room entries)
    (hall : Completes calls 0 none (matching cfg pattern entries))
    (hmatching : matching cfg pattern entries = front ++ rest)
    (hrun : Completes calls k marker rest)
    (hview : ∀ search, IsPartitionPoint search →
      matching cfg pattern (viewFrom search entries (marker.getD [])) = rest) :
    (∀ e ∈ rest, api.nameFits e.name = true) ∧ Paged api room entries rest := by
  induction hlength : rest.length using Nat.strong_induction_on
    generalizing front rest k marker with
  | _ len ih =>
  obtain ⟨rest', hrest, hfits, hnext⟩ := exists_takeFitting
    (fun e : CoreDirEntry ↦ api.entrySize e.name) room rest
  generalize hpage : takeFitting (fun e : CoreDirEntry ↦ api.entrySize e.name) room rest = page
    at hrest hfits hnext
  have hfirst := fun search (hsearch : IsPartitionPoint search) ↦
    let ⟨_, _, hn, hperm⟩ := hrun search hsearch
    enumerate_first_page (h search) (hview search hsearch) hpage hrest hn hperm
  have hanswer := isPartitionPoint_partitionPointOr (fun _ : List CoreDirEntry ↦ 0)
  obtain ⟨hnames, hcases⟩ := hfirst _ hanswer
  rcases hcases with ⟨hmark, hperm⟩ | ⟨hfull, -⟩
  · -- the end mark is there, so nothing is left
    have hnil : rest' = [] := by
      have hlen := hperm.length_eq
      rw [hrest, List.length_append] at hlen
      exact List.length_eq_zero_iff.mp (by omega)
    rw [hnil, List.append_nil] at hrest
    rw [hrest]
    exact ⟨hnames, .last hmark⟩
  · -- the end mark is not there, so the page is not empty
    obtain ⟨last, hlast⟩ : ∃ last, page.getLast? = some last := by
      rw [← Option.ne_none_iff_exists', Ne, List.getLast?_eq_none_iff]
      rintro rfl
      cases hhead : rest' with
      | nil =>
        have hmark := hroom.mark
        simp only [DirInfoApi.total, List.map_nil, List.sum_nil] at hfull
        omega
      | cons e more =>
        have hmem : e ∈ matching cfg pattern entries := by
          rw [hmatching, hrest, hhead]
          simp
        have hlarge := hnext e (by rw [hhead]; rfl)
        have hentry := hroom.entry e (List.mem_filter.mp hmem).1
        simp only [List.map_nil, List.sum_nil] at hlarge
        omega
    have hpositive : 0 < page.length := List.length_pos_of_mem (List.mem_of_getLast? hlast)
    have hthen : Completes calls (k + 1) (some last.name) rest' := by
      intro search hsearch
      obtain ⟨-, ⟨hmark, -⟩ | ⟨-, hmore⟩⟩ := hfirst search hsearch
      · exact absurd hmark (Nat.not_le.mpr hfull)
      · exact hmore last hlast
    -- from the start again, more would be delivered than is left
    have hrestart : ∀ search, IsPartitionPoint search →
        viewFrom search entries last.name ≠ entries := by
      intro search hsearch hagain
      obtain ⟨n, delivered, hn, hperm⟩ := hall search hsearch
      obtain ⟨m, more, hm, hmore⟩ := hthen search hsearch
      have hsame : more = delivered := by
        refine enumerate_unique (enumerate_of_view_eq (h search) ?_ hn) hm
        rw [Option.getD_some, hagain]
        rfl
      have hlen := hperm.length_eq
      rw [← hsame, hmore.length_eq, hmatching, hrest, List.length_append,
        List.length_append] at hlen
      omega
    have hname : last.name ≠ [] := by
      intro hnil
      apply hrestart _ hanswer
      rw [hnil]
      rfl
    have hsplit : Partitioned (fun e ↦ e.name ≤ last.name) entries := by
      by_contra hsplit
      apply hrestart _ hanswer
      rw [viewFrom, if_neg (by simpa using hname), partitionPointOr, if_neg hsplit]
      rfl
    have hafter : ∀ e ∈ rest', last.name < e.name := by
      have hskip := isPartitionPoint_partitionPointOr (fun l : List CoreDirEntry ↦ l.length)
      obtain ⟨n, delivered, hn, hperm⟩ := hthen _ hskip
      intro e he
      refine delivered_after (h _) hskip ?_ ?_ hn e (hperm.mem_iff.mpr he)
      · intro p hp
        rw [partitionPointOr, if_neg hp, List.drop_length]
      · intro e' he'
        rw [Option.getD_some, viewFrom, if_neg (by simpa using hname), hskip _ _ hsplit] at he'
        exact not_le.mp (of_decide_eq_false (hsplit e' he'))
    rw [hrest, ← List.append_assoc] at hmatching
    have hend : (front ++ page).getLast? = some last := by
      rw [List.getLast?_append, hlast]
      rfl
    have hshorter : rest'.length < len := by
      rw [← hlength, hrest, List.length_append]
      omega
    obtain ⟨hnames', hpaged⟩ := ih rest'.length hshorter hmatching hthen
      (fun _ hsearch ↦ matching_viewFrom hsearch hname hsplit hmatching hend hafter) rfl
    rw [hrest]
    refine ⟨?_, .full hlast hfits hfull hname hsplit hafter hpaged⟩
    intro e he
    exact (List.mem_append.mp he).elim (hnames e) (hnames' e)

end

variable {context : WinFspHandle} {states : Nat → MntrsFs} {env : Nat → Nat → StatEnv}
  {now : Nat → Nat}

/-- The pages of a directory together hold every matching entry once, whatever `partition_point`
answers on entries that a name does not split, exactly when the names fit and the entries go in
pages. -/
theorem enumeration_complete_iff (h : Enumerable cfg context entries states env now)
    (hroom : api.Holds room entries) :
    (∀ search, IsPartitionPoint search → ∃ n delivered,
      enumerate (directoryCalls cfg api search context pattern room states env now) n 0 none =
        some delivered ∧ delivered.Perm (matching cfg pattern entries)) ↔
    (∀ e ∈ matching cfg pattern entries, api.nameFits e.name = true) ∧
      Paged api room entries (matching cfg pattern entries) := by
  constructor
  · intro hall
    exact paged_of_complete (fun _ ↦ h.serves) hroom hall (List.nil_append _).symm hall
      fun _ _ ↦ rfl
  · rintro ⟨hnames, hpaged⟩ search hsearch
    obtain ⟨n, hn⟩ : ∃ n, enumerate _ n 0 none = _ :=
      exists_enumerate_of_paged h.serves hsearch hnames hpaged (List.nil_append _).symm rfl
    exact ⟨n, _, hn, List.Perm.refl _⟩

end

/-- Names of ASCII letters in the layout of `FSP_FSCTL_DIR_INFO`: 104 bytes before the name, which
is stored with its NUL in two bytes each, and entries at multiples of eight. -/
def DirInfoApi.ascii : DirInfoApi where
  nameFits name := name.length < 255
  entrySize name := (104 + 2 * (name.length + 1) + 7) / 8 * 8
  markSize := 2
  markSize_le name := by omega

/-- The root opened as a directory that has one file. -/
def openedWith (name : Path) : MntrsFs :=
  (opendir (.plain .full) (.mounted (fun _ ↦ none) .empty) 1
    ⟨.ok [.ok ⟨name, ⟨.file, 0, none⟩⟩], 0⟩).2

/-- What `opendir` lists. -/
def listedWith (name : Path) : List CoreDirEntry :=
  [⟨1, .directory, ['.']⟩, ⟨1, .directory, ['.', '.']⟩, ⟨3, .regularFile, name⟩]

/-- The handle of the root. -/
def rootHandle : WinFspHandle := ⟨1, 1, true, 1⟩

/-- The calls of an enumeration of the root without interference. -/
def rootCalls (search : (CoreDirEntry → Bool) → List CoreDirEntry → Nat) (name : Path)
    (room : Nat) : Nat → Option Path → Except ReadDirectoryError DirPage :=
  directoryCalls (.plain .full) .ascii search rootHandle none room (fun _ ↦ openedWith name)
    (fun _ _ ↦ .plain 0) (fun _ ↦ 0)

theorem enumerable_openedWith {name : Path}
    (hsnapshot : (openedWith name).dirListers.lookup 1 = some (listedWith name))
    (hfound : ∀ cut ∈ List.range 4, ((batchLookupFromDirCache (.plain .full) (openedWith name) 1
      (((listedWith name).drop cut).map CoreDirEntry.name) (fun _ ↦ .plain 0) 0).1).all
        Except.isOk) :
    Enumerable (.plain .full) rootHandle (listedWith name) (fun _ ↦ openedWith name)
      (fun _ _ ↦ .plain 0) (fun _ ↦ 0) := by
  refine ⟨rfl, fun _ ↦ hsnapshot, fun _ cut res hres ↦ ?_⟩
  have hcut : (listedWith name).drop cut = (listedWith name).drop (min cut 3) := by
    rcases Nat.le_total cut 3 with hle | hle
    · rw [Nat.min_eq_left hle]
    · rw [Nat.min_eq_right hle, List.drop_eq_nil_of_le (by exact hle)]
      rfl
  rw [hcut] at hres
  have hok := List.all_eq_true.mp (hfound (min cut 3) (List.mem_range.mpr (by omega))) res hres
  cases res with
  | error e => cases hok
  | ok attr => exact ⟨attr, rfl⟩

/-- A directory in two pages: the first one fills the buffer but for a byte. -/
theorem enumeration_complete_two_pages :
    Enumerable (.plain .full) rootHandle (listedWith ['a']) (fun _ ↦ openedWith ['a'])
        (fun _ _ ↦ .plain 0) (fun _ ↦ 0) ∧
      DirInfoApi.ascii.Holds 225 (listedWith ['a']) ∧
      ∀ search, IsPartitionPoint search → ∃ n delivered,
        enumerate (rootCalls search ['a'] 225) n 0 none = some delivered ∧
          delivered.Perm (listedWith ['a']) := by
  have henumerable := @enumerable_openedWith ['a'] (by decide) (by decide)
  have hroom : DirInfoApi.ascii.Holds 225 (listedWith ['a']) := ⟨by decide, by decide⟩
  refine ⟨henumerable, hroom, ?_⟩
  refine (enumeration_complete_iff henumerable hroom).mpr ⟨by decide, ?_⟩
  have hpaged : Paged .ascii 225 (listedWith ['a'])
      ((listedWith ['a']).take 2 ++ (listedWith ['a']).drop 2) :=
    .full rfl (by decide) (by decide) (by decide) (by decide) (by decide) (.last (by decide))
  exact hpaged

/-- The end mark follows a page that has no room for the third entry. In a buffer that the first
page fills, the name `-` is passed over, because it comes before the marker. -/
theorem enumeration_incomplete :
    ∃ search, IsPartitionPoint search ∧
      (∀ name ∈ [['a'], ['-']], Enumerable (.plain .full) rootHandle (listedWith name)
        (fun _ ↦ openedWith name) (fun _ _ ↦ .plain 0) (fun _ ↦ 0)) ∧
      (DirInfoApi.ascii.Holds 300 (listedWith ['a']) ∧
        ¬ ∃ n delivered, enumerate (rootCalls search ['a'] 300) n 0 none = some delivered ∧
          delivered.Perm (listedWith ['a'])) ∧
      DirInfoApi.ascii.Holds 225 (listedWith ['-']) ∧
        ¬ ∃ n delivered, enumerate (rootCalls search ['-'] 225) n 0 none = some delivered ∧
          delivered.Perm (listedWith ['-']) := by
  refine ⟨_, isPartitionPoint_partitionPointOr (fun _ ↦ 0), ?_, ⟨⟨by decide, by decide⟩, ?_⟩,
    ⟨by decide, by decide⟩, ?_⟩
  · intro name hname
    rcases List.mem_pair.mp hname with rfl | rfl <;>
      exact enumerable_openedWith (by decide) (by decide)
  · rintro ⟨n, delivered, hn, hperm⟩
    have hrun : enumerate (rootCalls (partitionPointOr (fun _ ↦ 0)) ['a'] 300) 1 0 none =
        some ((listedWith ['a']).take 2) := by decide
    rw [enumerate_unique hrun hn] at hperm
    exact absurd hperm.length_eq (by decide)
  · rintro ⟨n, delivered, hn, hperm⟩
    have hrun : enumerate (rootCalls (partitionPointOr (fun _ ↦ 0)) ['-'] 225) 2 0 none =
        some ((listedWith ['-']).take 2) := by decide
    rw [enumerate_unique hrun hn] at hperm
    exact absurd hperm.length_eq (by decide)

end Mntrs

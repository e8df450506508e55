import Mathlib.Data.List.Permutation
import Mntrs.Base.Segments
import Mntrs.Base.Transactions
import Mntrs.Model.Path

/-!
# The list of mounts on disk

`mounts.txt` has one row for each mount, its fields separated by a NUL. Models
`src/src/cmd/mount.rs:101-253` (`read_mounts`, `record_mount`, `remove_mount`) and
`src/src/cmd/unmount.rs:7-134` (`unmount`), first as functions on the text of the file and then
cut at the steps in which the file is read and replaced, since any process may run them at any
time.
-/

namespace Mntrs.Mount

open Base

/-- The text of a file or of an argument. -/
abbrev Text := List Char

/-- The byte that ends a field. -/
def nul : Char := Char.ofNat 0

/-! ### The text of the file -/

/-- A line without the carriage return before its end. -/
def stripCr (l : Text) : Text := if l.getLast? = some '\r' then l.dropLast else l

/-- The lines between the ends of lines. What follows the last end is a line if it is not
empty. -/
def endedLines : List Text → List Text
  | [] => []
  | [l] => if l = [] then [] else [l]
  | l :: l' :: ls => stripCr l :: endedLines (l' :: ls)

/-- `str::lines`. -/
def lines (text : Text) : List Text := endedLines (text.splitOn '\n')

/-- `[str]::join("\n")`. -/
def joinLines (ls : List Text) : Text := spell '\n' ls

/-- The fields of a line. -/
def fields (l : Text) : List Text := l.splitOn nul

/-- The lines about other mountpoints. -/
def otherLines (mountpoint text : Text) : List Text :=
  (lines text).filter (fun l ↦ (fields l)[1]? ≠ some mountpoint)

/-- One mount as `mntrs list` shows it. -/
structure MountInfo where
  storage : Text
  mountpoint : Text
  pid : Text
  user : Text
  readOnly : Bool
  backend : Text
deriving DecidableEq, Repr

/-- How a mount is written. -/
def MountInfo.row (m : MountInfo) : List Text :=
  [m.storage, m.mountpoint, m.pid, m.user, if m.readOnly then ['r', 'o'] else ['r', 'w'],
    m.backend]

/-- The row of a mount. -/
def MountInfo.line (m : MountInfo) : Text := spell nul m.row

/-- A row read back. Rows with too few fields or without storage, mountpoint or process are
skipped. -/
def parseLine (l : Text) : Option MountInfo :=
  match fields l with
  | storage :: mountpoint :: pid :: user :: mode :: backend :: _ =>
    if pid = [] ∨ storage = [] ∨ mountpoint = [] then none
    else some ⟨storage, mountpoint, pid, user, mode = ['r', 'o'], backend⟩
  | _ => none

/-- `read_mounts`. -/
def readMounts (db : Option Text) : List MountInfo :=
  match db with
  | none => []
  | some text => (lines text).filterMap parseLine

/-! ### The updates -/

/-- What a process sees of its host and whether its file operations succeed. -/
structure Env where
  pid : Text
  user : Text
  canonicalizeMountpoint : Text → Text
  redactStorageUrl : Text → Text
  exists? : Text → Bool
  fuseUnmount : Text → Bool
  writes : Bool
  renames : Bool

/-- The updates of the file: a mount is recorded, a mount's process removes it, or the `unmount`
command is run on a target. -/
inductive Update where
  | recordMount (storage mountpoint : Text) (readOnly : Bool) (env : Env)
  | removeMount (mountpoint : Text) (env : Env)
  | unmount (target : Text) (env : Env)

/-- The mount `record_mount` records. -/
def recordedMount (storage mountpoint : Text) (readOnly : Bool) (env : Env) : MountInfo where
  storage := env.redactStorageUrl storage
  mountpoint := env.canonicalizeMountpoint mountpoint
  pid := env.pid
  user := env.user
  readOnly := readOnly
  backend := (storage.splitOn ':').headD ['?']

/-- The new text `record_mount` computes: the row first, then the lines of the others. -/
def recordText (m : MountInfo) (db : Option Text) : Text :=
  joinLines (m.line :: (db.map (otherLines m.mountpoint)).getD []) ++ ['\n']

/-- `record_mount`, `src/src/cmd/mount.rs:153-205`. -/
def recordMount (storage mountpoint : Text) (readOnly : Bool) (env : Env) (db : Option Text) :
    Option Text :=
  if env.writes && env.renames then
    some (recordText (recordedMount storage mountpoint readOnly env) db)
  else db

/-- `remove_mount`, `src/src/cmd/mount.rs:207-253`. -/
def removeMount (mountpoint : Text) (env : Env) (db : Option Text) : Option Text :=
  match db with
  | none => none
  | some text =>
    if env.writes && env.renames then
      some (joinLines (otherLines (env.canonicalizeMountpoint mountpoint) text))
    else some text

/-- `unmount all`. -/
def isAll (target : Text) : Bool := target = ['a', 'l', 'l'] || target = ['-', 'a']

/-- The mountpoint a target of `unmount` names: a path that exists, or the mountpoint of a
storage. -/
def resolveTarget (target : Text) (env : Env) (db : Option Text) : Option Text :=
  if env.exists? target then some target
  else ((readMounts db).find? (fun m ↦ m.storage = target)).map MountInfo.mountpoint

/-- `unmount`, `src/src/cmd/unmount.rs:7-134`. -/
def unmount (target : Text) (env : Env) (db : Option Text) : Option Text :=
  if isAll target then
    if readMounts db = [] ∨ env.writes = false then db else none
  else
    match resolveTarget target env db with
    | none => db
    | some mountpoint =>
      if env.fuseUnmount mountpoint && env.writes then
        db.map (fun text ↦ joinLines (otherLines (env.canonicalizeMountpoint mountpoint) text))
      else db

/-- An update from its start to its end. -/
def applyUpdate (db : Option Text) : Update → Option Text
  | .recordMount storage mountpoint readOnly env => recordMount storage mountpoint readOnly env db
  | .removeMount mountpoint env => removeMount mountpoint env db
  | .unmount target env => unmount target env db

/-- Where an update stands between its accesses to the file. The temporary file carries the
number of its process, so no other process sees it. -/
inductive Stage where
  | start (u : Update)
  | writeTmp (env : Env) (text : Text)
  | rename (env : Env) (text : Text)
  | read (mountpoint : Text) (env : Env)
  | write (env : Env) (text : Text)
  | remove (env : Env)

/-- An update goes on until it next accesses the file. -/
def next (db : Option Text) : Stage → Stage ⊕ Option Text
  | .start (.recordMount storage mountpoint readOnly env) =>
    .inl (.writeTmp env (recordText (recordedMount storage mountpoint readOnly env) db))
  | .start (.removeMount mountpoint env) =>
    match db with
    | none => .inr db
    | some text =>
      .inl (.writeTmp env (joinLines (otherLines (env.canonicalizeMountpoint mountpoint) text)))
  | .start (.unmount target env) =>
    if isAll target then
      if readMounts db = [] then .inr db else .inl (.remove env)
    else
      match resolveTarget target env db with
      | none => .inr db
      | some mountpoint =>
        if env.fuseUnmount mountpoint then .inl (.read mountpoint env) else .inr db
  | .writeTmp env text => if env.writes then .inl (.rename env text) else .inr db
  | .rename env text => if env.renames then .inr (some text) else .inr db
  | .read mountpoint env =>
    match db with
    | none => .inr db
    | some text =>
      .inl (.write env (joinLines (otherLines (env.canonicalizeMountpoint mountpoint) text)))
  | .write env text => if env.writes then .inr (some text) else .inr db
  | .remove env => if env.writes then .inr none else .inr db

variable {db db' : Option Text} {env : Env} {text mountpoint l : Text} {ls : List Text}

/-- A process with the text it has computed replaces the file through its temporary file. -/
theorem eq_of_ends_writeTmp (h : Ends next db (.writeTmp env text) db') :
    db' = if env.writes && env.renames then some text else db := by
  cases h with
  | done hnext =>
    cases hw : env.writes <;> simp only [next, hw] at hnext
    · cases hnext
      rfl
    · cases hnext
  | go hnext hrest =>
    cases hw : env.writes <;> simp only [next, hw] at hnext
    · cases hnext
    · cases hnext
      cases hrest with
      | done hlast => cases hr : env.renames <;> simp_all [next]
      | go hlast => cases hr : env.renames <;> simp [next, hr] at hlast

theorem eq_of_ends_write (h : Ends next db (.write env text) db') :
    db' = if env.writes then some text else db := by
  cases h with
  | done hnext => cases hw : env.writes <;> simp_all [next]
  | go hnext => cases hw : env.writes <;> simp [next, hw] at hnext

theorem eq_of_ends_read (h : Ends next db (.read mountpoint env) db') :
    db' = if env.writes then
      db.map (fun text ↦ joinLines (otherLines (env.canonicalizeMountpoint mountpoint) text))
    else db := by
  cases db with
  | none =>
    cases h with
    | done hnext =>
      cases hnext
      simp
    | go hnext => cases hnext
  | some text =>
    cases h with
    | done hnext => cases hnext
    | go hnext hrest =>
      cases hnext
      exact eq_of_ends_write hrest

theorem eq_of_ends_remove (h : Ends next db (.remove env) db') :
    db' = if env.writes then none else db := by
  cases h with
  | done hnext => cases hw : env.writes <;> simp_all [next]
  | go hnext => cases hw : env.writes <;> simp [next, hw] at hnext

theorem eq_applyUpdate_of_ends {u : Update} (h : Ends next db (.start u) db') :
    db' = applyUpdate db u := by
  cases u with
  | recordMount storage mountpoint readOnly env =>
    cases h with
    | done hnext => cases hnext
    | go hnext hrest =>
      cases hnext
      exact eq_of_ends_writeTmp hrest
  | removeMount mountpoint env =>
    cases db with
    | none =>
      cases h with
      | done hnext =>
        cases hnext
        rfl
      | go hnext => cases hnext
    | some text =>
      cases h with
      | done hnext => cases hnext
      | go hnext hrest =>
        cases hnext
        exact eq_of_ends_writeTmp hrest
  | unmount target env =>
    simp only [applyUpdate, unmount]
    cases h with
    | done hnext =>
      simp only [next] at hnext
      split at hnext
      · next hall =>
        split at hnext <;> cases hnext
        rename_i hempty
        simp [hall, hempty]
      · next hall =>
        split at hnext
        · next hresolve =>
          cases hnext
          simp [hall]
        · next mountpoint hresolve =>
          split at hnext <;> cases hnext
          rename_i hfuse
          simp [hall, hfuse]
    | go hnext hrest =>
      simp only [next] at hnext
      split at hnext
      · next hall =>
        split at hnext <;> cases hnext
        rename_i hempty
        rw [eq_of_ends_remove hrest]
        cases hw : env.writes <;> simp [hall, hempty]
      · next hall =>
        split at hnext
        · cases hnext
        · next mountpoint hresolve =>
          split at hnext <;> cases hnext
          rename_i hfuse
          rw [eq_of_ends_read hrest]
          simp [hall, hfuse]

/-! ### A row stays in the file -/

/-- A line that is read back as it was written. -/
structure Tidy (l : Text) : Prop where
  ne_nil : l ≠ []
  newline : '\n' ∉ l
  cr : l.getLast? ≠ some '\r'

theorem mem_endedLines (hl : Tidy l) (h : l ∈ ls) : l ∈ endedLines ls := by
  fun_induction endedLines ls with
  | case1 => cases h
  | case2 => exact absurd (List.mem_singleton.mp h) hl.ne_nil
  | case3 => exact h
  | case4 first second rest ih =>
    rcases List.mem_cons.mp h with rfl | hrest
    · rw [stripCr, if_neg hl.cr]
      exact List.mem_cons_self
    · exact List.mem_cons_of_mem _ (ih hrest)

theorem endedLines_append_nil (ls : List Text) : endedLines (ls ++ [[]]) = ls.map stripCr := by
  induction ls with
  | nil => rfl
  | cons l ls ih =>
    cases ls with
    | nil => rfl
    | cons l' ls => exact congrArg (stripCr l :: ·) ih

/-- The lines of a text whose lines all end. -/
theorem lines_stem (h : ∀ l ∈ ls, '\n' ∉ l) : lines (stem '\n' ls) = ls.map stripCr := by
  rw [lines, splitOn_stem h, endedLines_append_nil]

theorem mem_lines_joinLines (hl : Tidy l) (h : l ∈ ls) : l ∈ lines (joinLines ls) :=
  mem_endedLines hl (mem_splitOn_spell hl.newline h)

theorem mem_lines_recordText {m : MountInfo} (hl : Tidy l)
    (h : l ∈ m.line :: (db.map (otherLines m.mountpoint)).getD []) :
    l ∈ lines (recordText m db) := by
  have hjoin : recordText m db =
      joinLines ((m.line :: (db.map (otherLines m.mountpoint)).getD []) ++ [[]]) := by
    rw [joinLines, spell_snoc (by simp)]
    rfl
  rw [hjoin]
  exact mem_lines_joinLines hl (by simp only [List.mem_append, h, true_or])

/-- A mount whose row can be read back: no field holds a NUL or the end of a line, and it has a
storage, a mountpoint and a process. -/
structure Readable (m : MountInfo) : Prop where
  fields : ∀ f ∈ m.row, nul ∉ f
  line : ∀ f ∈ m.row, '\n' ∉ f
  cr : m.backend.getLast? ≠ some '\r'
  storage : m.storage ≠ []
  mountpoint : m.mountpoint ≠ []
  pid : m.pid ≠ []

variable {m : MountInfo}

theorem fields_line (hm : Readable m) : fields m.line = m.row :=
  List.splitOn_intercalate nul hm.fields (by simp [MountInfo.row])

theorem parseLine_line (hm : Readable m) : parseLine m.line = some m := by
  rw [parseLine, fields_line hm]
  simp only [MountInfo.row]
  rw [if_neg (by simp [hm.storage, hm.mountpoint, hm.pid])]
  obtain ⟨storage, mountpoint, pid, user, readOnly, backend⟩ := m
  cases readOnly <;> rfl

theorem tidy_line (hm : Readable m) : Tidy m.line := by
  have hline : m.line = spell nul m.row.dropLast ++ nul :: m.backend := by
    rw [← spell_snoc (by simp [MountInfo.row])]
    rfl
  refine ⟨by simp [hline], ?_, ?_⟩
  · intro hmem
    rcases mem_spell hmem with hnul | ⟨f, hf, hin⟩
    · exact absurd hnul (by decide)
    · exact hm.line f hf hin
  · rw [hline, List.getLast?_append_cons]
    cases hback : m.backend with
    | nil => decide
    | cons c back =>
      rw [List.getLast?_cons_cons, ← hback]
      exact hm.cr

/-- The update is about other mountpoints. -/
def Spares (m : MountInfo) (db : Option Text) : Update → Prop
  | .recordMount _ mountpoint _ env => env.canonicalizeMountpoint mountpoint ≠ m.mountpoint
  | .removeMount mountpoint env => env.canonicalizeMountpoint mountpoint ≠ m.mountpoint
  | .unmount target env =>
    isAll target = false ∧
      ∀ mountpoint ∈ resolveTarget target env db,
        env.canonicalizeMountpoint mountpoint ≠ m.mountpoint

/-- Updates one after another, all about other mountpoints. -/
def SparesAll (m : MountInfo) : Option Text → List Update → Prop
  | _, [] => True
  | db, u :: us => Spares m db u ∧ SparesAll m (applyUpdate db u) us

/-- The row of the mount is in the file. -/
def Holds (m : MountInfo) (db : Option Text) : Prop := ∃ text ∈ db, m.line ∈ lines text

theorem mem_otherLines (hm : Readable m) (h : m.line ∈ lines text)
    (hne : mountpoint ≠ m.mountpoint) : m.line ∈ otherLines mountpoint text := by
  refine List.mem_filter.mpr ⟨h, ?_⟩
  rw [fields_line hm]
  simpa [MountInfo.row] using hne.symm

theorem holds_applyUpdate (hm : Readable m) {u : Update} (h : Holds m db)
    (hspares : Spares m db u) : Holds m (applyUpdate db u) := by
  obtain ⟨text, rfl, hline⟩ := h
  have hfiltered : ∀ mountpoint, mountpoint ≠ m.mountpoint →
      Holds m (some (joinLines (otherLines mountpoint text))) := fun mountpoint hne ↦
    ⟨_, rfl, mem_lines_joinLines (tidy_line hm) (mem_otherLines hm hline hne)⟩
  have hsame : Holds m (some text) := ⟨text, rfl, hline⟩
  cases u with
  | recordMount storage mountpoint readOnly env =>
    simp only [applyUpdate, recordMount]
    split
    · refine ⟨_, rfl, mem_lines_recordText (tidy_line hm) (List.mem_cons_of_mem _ ?_)⟩
      exact mem_otherLines hm hline hspares
    · exact hsame
  | removeMount mountpoint env =>
    simp only [applyUpdate, removeMount]
    split
    · exact hfiltered _ hspares
    · exact hsame
  | unmount target env =>
    simp only [applyUpdate, unmount, hspares.1, Bool.false_eq_true, if_false]
    split
    · exact hsame
    · next mountpoint hresolve =>
      split
      · exact hfiltered _ (hspares.2 mountpoint hresolve)
      · exact hsame

theorem holds_foldl (hm : Readable m) {us : List Update} (h : Holds m db)
    (hspares : SparesAll m db us) : Holds m (us.foldl applyUpdate db) := by
  induction us generalizing db with
  | nil => exact h
  | cons u us ih => exact ih (holds_applyUpdate hm h hspares.1) hspares.2

theorem mem_readMounts (hm : Readable m) (h : Holds m db) : m ∈ readMounts db := by
  obtain ⟨text, rfl, hline⟩ := h
  exact List.mem_filterMap.mpr ⟨m.line, hline, parseLine_line hm⟩

/-! ### Updates by several processes -/

/-- Any number of processes update the file, if no one replaces it while another one is between
its first look at the file and its end. -/
theorem updates_serialise_of_run {db : Option Text} {t : Shared (Option Text) Update Stage}
    (hrun : GuardedRun (sharedStep .start next) (Undisturbed .start next) (.initial db) t)
    (hend : t.underway = []) :
    ∃ order, order.Perm t.begun ∧ t.datum = order.foldl applyUpdate db ∧
      ∀ before storage mountpoint readOnly env after,
        order = before ++ .recordMount storage mountpoint readOnly env :: after →
        env.writes = true → env.renames = true →
        Readable (recordedMount storage mountpoint readOnly env) →
        SparesAll (recordedMount storage mountpoint readOnly env)
          ((before ++ [Update.recordMount storage mountpoint readOnly env]).foldl applyUpdate db)
          after →
        recordedMount storage mountpoint readOnly env ∈ readMounts t.datum := by
  have hserialised := Serialised.of_run hrun
  have hfold : t.datum = t.ended.foldl applyUpdate db :=
    hserialised.serial.eq_foldl (fun _ _ _ ↦ eq_applyUpdate_of_ends)
  refine ⟨t.ended, ?_, hfold, ?_⟩
  · simpa [hend] using hserialised.begun
  · intro before storage mountpoint readOnly env after horder hwrites hrenames hm hspares
    apply mem_readMounts hm
    rw [hfold, horder, List.append_cons, List.foldl_append]
    refine holds_foldl hm ?_ hspares
    rw [List.foldl_concat]
    simp only [applyUpdate, recordMount, hwrites, hrenames, Bool.and_self, if_true]
    exact ⟨_, rfl, mem_lines_recordText (tidy_line hm) List.mem_cons_self⟩

/-- A host without symbolic links on which every operation succeeds. -/
def plainEnv : Env where
  pid := ['1']
  user := ['u']
  canonicalizeMountpoint := id
  redactStorageUrl := id
  exists? := fun _ ↦ true
  fuseUnmount := fun _ ↦ true
  writes := true
  renames := true

/-- The mount of `s` at `m`, and the `unmount` command on `n`. -/
def recordM : Update := .recordMount ['s'] ['m'] false plainEnv

def unmountN : Update := .unmount ['n'] plainEnv

/-- The file with one mount, at `n`. -/
def oneMount : Option Text := recordMount ['s'] ['n'] false plainEnv none

/-- The steps of the two, those of `record_mount` first. -/
def recordThenUnmount : List (SharedLabel Update) :=
  .begin recordM :: .begin unmountN :: List.replicate 6 (.advance 0)

/-- A mount is recorded while an `unmount` has not looked at the file yet. -/
theorem updates_serialise_of_run_sample :
    ∃ t : Shared (Option Text) Update Stage,
      GuardedRun (sharedStep .start next) (Undisturbed .start next) (.initial oneMount) t ∧
      t.underway = [] ∧
      ∃ order : List Update, order.Perm t.begun ∧
        t.datum = order.foldl applyUpdate oneMount := by
  have hguard : Admits (sharedStep .start next) (Undisturbed .start next)
      recordThenUnmount (.initial oneMount) := by
    refine ⟨trivial, fun s hs ↦ ?_⟩
    cases hs
    refine ⟨trivial, fun s hs ↦ ?_⟩
    cases hs
    refine ⟨fun u hu d hd ↦ ?_, fun s hs ↦ ?_⟩
    · cases hu
      cases hd
    cases hs
    refine ⟨fun u hu d hd ↦ ?_, fun s hs ↦ ?_⟩
    · cases hu
      cases hd
    cases hs
    -- The row goes into the file while the other process stands at its start.
    refine ⟨fun u hu d hd ↦ .inr (fun u' hu' ↦ ?_), fun s hs ↦ ?_⟩
    · cases List.mem_singleton.mp hu'
      rfl
    cases hs
    refine ⟨undisturbed_of_alone _ _ rfl 0, fun s hs ↦ ?_⟩
    cases hs
    refine ⟨undisturbed_of_alone _ _ rfl 0, fun s hs ↦ ?_⟩
    cases hs
    exact ⟨undisturbed_of_alone _ _ rfl 0, fun _ _ ↦ trivial⟩
  obtain ⟨t, ht, hend⟩ := exists_exec (sharedStep .start next) (fun t ↦ t.underway.isEmpty = true)
    recordThenUnmount (.initial oneMount) (by decide)
  have hrun := guardedRun_of_exec ht hguard
  have hnone : t.underway = [] := List.isEmpty_iff.mp hend
  obtain ⟨order, hperm, hfold, -⟩ := updates_serialise_of_run hrun hnone
  exact ⟨t, hrun, hnone, order, hperm, hfold⟩

/-- An `unmount` that read the file before a mount was recorded takes the new row away. -/
theorem recorded_mount_is_lost :
    ∃ t : Shared (Option Text) Update Stage,
      GuardedRun (sharedStep .start next) (fun _ _ ↦ True) (.initial oneMount) t ∧
      t.underway = [] ∧ t.begun = [recordM, unmountN] ∧
      (∀ order : List Update, order.Perm t.begun → t.datum ≠ order.foldl applyUpdate oneMount) ∧
      recordedMount ['s'] ['m'] false plainEnv ∉ readMounts t.datum := by
  have hexec : exec (sharedStep .start next)
      [.begin recordM, .begin unmountN, .advance 1, .advance 1, .advance 0, .advance 0, .advance 0,
        .advance 0] (.initial oneMount) =
      some ⟨some [], [], [recordM, unmountN], [recordM, unmountN]⟩ := by
    rfl
  refine ⟨_, guardedRun_of_exec hexec (admits_of_forall (fun _ _ ↦ trivial) _ _), rfl, rfl, ?_,
    by decide⟩
  intro order hperm
  have hmem := List.mem_permutations.mpr hperm
  have htwo : order = [recordM, unmountN] ∨ order = [unmountN, recordM] := by
    simpa [List.permutations] using hmem
  rcases htwo with rfl | rfl <;> decide

end Mntrs.Mount

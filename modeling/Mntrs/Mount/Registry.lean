import Mntrs.Base.Recency
import Mntrs.Mount.MountsDb

/-!
# The list of mounts as a registry

One process after another records and removes mounts (`src/src/cmd/mount.rs:153-253`). The text
of the file spells a list of mounts, with or without an end of its last line, and each call
changes the list as it would change a registry kept by canonical mountpoints.
-/

namespace Mntrs.Mount

open Base

/-- A call on the list of mounts, with the host its process runs on. -/
inductive Call where
  | recordMount (storage mountpoint : Text) (readOnly : Bool) (env : Env)
  | removeMount (mountpoint : Text) (env : Env)

namespace Call

/-- The call as an update of the file. -/
def update : Call → Update
  | recordMount storage mountpoint readOnly env => .recordMount storage mountpoint readOnly env
  | removeMount mountpoint env => .removeMount mountpoint env

def env : Call → Env
  | recordMount _ _ _ env => env
  | removeMount _ env => env

/-- The new text takes the place of the file. -/
def lands (c : Call) : Bool := c.env.writes && c.env.renames

/-- The canonical mountpoint a call is about. -/
def mountpoint : Call → Text
  | recordMount _ mountpoint _ env => env.canonicalizeMountpoint mountpoint
  | removeMount mountpoint env => env.canonicalizeMountpoint mountpoint

/-- The canonical mountpoint of a call that lands. -/
def canonical (c : Call) : Option Text := if c.lands then some c.mountpoint else none

/-- The mount a call records. -/
def recorded : Call → Option MountInfo
  | recordMount storage mountpoint readOnly env =>
    some (recordedMount storage mountpoint readOnly env)
  | removeMount _ _ => none

end Call

/-- `char::is_control`. -/
def isControl (c : Char) : Bool := c.toNat < 0x20 || (0x7F ≤ c.toNat && c.toNat < 0xA0)

/-- Processes have numbers, and a path or URL that is not empty is not made empty. -/
structure Env.Faithful (env : Env) : Prop where
  pid : env.pid ≠ []
  canonical : ∀ mountpoint, mountpoint ≠ [] → env.canonicalizeMountpoint mountpoint ≠ []
  redacted : ∀ storage, storage ≠ [] → env.redactStorageUrl storage ≠ []

/-- A mount is recorded with a storage and a mountpoint, and no field has a control character. -/
def Call.WellFormed : Call → Prop
  | .recordMount storage mountpoint readOnly env =>
    storage ≠ [] ∧ mountpoint ≠ [] ∧ env.Faithful ∧
      ∀ f ∈ (recordedMount storage mountpoint readOnly env).row, ∀ c ∈ f, isControl c = false
  | .removeMount _ _ => True

variable {c : Call} {db : Option Text} {m : MountInfo} {ms : List MountInfo}

theorem readable_of_wellFormed (hc : c.WellFormed) (hm : c.recorded = some m) : Readable m := by
  cases c with
  | removeMount mountpoint env => cases hm
  | recordMount storage mountpoint readOnly env =>
    cases hm
    obtain ⟨hstorage, hmountpoint, henv, hcontrol⟩ := hc
    have hfree : ∀ x, isControl x = true →
        ∀ f ∈ (recordedMount storage mountpoint readOnly env).row, x ∉ f := by
      intro x hx f hf hmem
      rw [hcontrol f hf x hmem] at hx
      cases hx
    refine ⟨hfree nul (by decide), hfree '\n' (by decide), ?_, henv.redacted _ hstorage,
      henv.canonical _ hmountpoint, henv.pid⟩
    intro hlast
    exact hfree '\r' (by decide) _ (by simp [MountInfo.row]) (List.mem_of_getLast? hlast)

/-! ### The file spells a list of mounts -/

/-- The lines of the file are the rows of the mounts. -/
structure Spells (db : Option Text) (ms : List MountInfo) : Prop where
  rows : (db.map lines).getD [] = ms.map MountInfo.line
  readable : ∀ m ∈ ms, Readable m

theorem Spells.readMounts (h : Spells db ms) : readMounts db = ms := by
  have hread : Mount.readMounts db = ((db.map lines).getD []).filterMap parseLine := by
    cases db <;> rfl
  rw [hread, h.rows, List.filterMap_map]
  have hparse : ∀ m ∈ ms, (parseLine ∘ MountInfo.line) m = some m :=
    fun m hm ↦ parseLine_line (h.readable m hm)
  rw [List.filterMap_congr hparse, List.filterMap_some]

/-- The lines about other mountpoints are the rows of the other mounts. -/
theorem Spells.otherLines (h : Spells db ms) (mountpoint : Text) :
    (db.map (otherLines mountpoint)).getD [] =
      (ms.filter (fun m ↦ m.mountpoint ≠ mountpoint)).map MountInfo.line := by
  have hother : (db.map (Mount.otherLines mountpoint)).getD [] =
      ((db.map lines).getD []).filter (fun l ↦ (fields l)[1]? ≠ some mountpoint) := by
    cases db <;> rfl
  rw [hother, h.rows, List.filter_map]
  congr 1
  apply List.filter_congr
  intro m hm
  simp [fields_line (h.readable m hm), MountInfo.row]

theorem Spells.filter (h : Spells db ms) (mountpoint : Text) :
    ∀ m ∈ ms.filter (fun m ↦ m.mountpoint ≠ mountpoint), Readable m :=
  fun m hm ↦ h.readable m (List.mem_filter.mp hm).1

theorem stripCr_line (hm : Readable m) : stripCr m.line = m.line := by
  rw [stripCr, if_neg (tidy_line hm).cr]

/-- Rows with an end of line each. -/
theorem spells_stem (h : ∀ m ∈ ms, Readable m) :
    Spells (some (stem '\n' (ms.map MountInfo.line))) ms := by
  refine ⟨?_, h⟩
  have hline : ∀ l ∈ ms.map MountInfo.line, '\n' ∉ l := by
    intro l hl
    obtain ⟨m, hm, rfl⟩ := List.mem_map.mp hl
    exact (tidy_line (h m hm)).newline
  rw [Option.map_some, lines_stem hline, List.map_map]
  exact List.map_congr_left (fun m hm ↦ stripCr_line (h m hm))

theorem endedLines_of_tidy {ls : List Text} (h : ∀ l ∈ ls, Tidy l) : endedLines ls = ls := by
  fun_induction endedLines ls with
  | case1 => rfl
  | case2 => exact absurd rfl (h [] (by simp)).ne_nil
  | case3 => rfl
  | case4 first second rest ih =>
    rw [stripCr, if_neg (h first (by simp)).cr, ih (fun l hl ↦ h l (List.mem_cons_of_mem _ hl))]

/-- Rows without an end of the last line. -/
theorem spells_joinLines (h : ∀ m ∈ ms, Readable m) :
    Spells (some (joinLines (ms.map MountInfo.line))) ms := by
  refine ⟨?_, h⟩
  have htidy : ∀ l ∈ ms.map MountInfo.line, Tidy l := by
    intro l hl
    obtain ⟨m, hm, rfl⟩ := List.mem_map.mp hl
    exact tidy_line (h m hm)
  cases hnil : ms with
  | nil => rfl
  | cons first rest =>
    rw [← hnil, Option.map_some, Option.getD_some, lines, joinLines, spell,
      List.splitOn_intercalate '\n' (fun l hl ↦ (htidy l hl).newline) (by simp [hnil]),
      endedLines_of_tidy htidy]

/-! ### A call changes the list as it changes a registry -/

/-- The registry after calls. -/
def registry (calls : List Call) : List MountInfo :=
  recency MountInfo.mountpoint Call.canonical Call.recorded calls

theorem recorded_mountpoint (c : Call) (k : Text) (m : MountInfo) (hk : c.canonical = some k)
    (hm : c.recorded = some m) : m.mountpoint = k := by
  unfold Call.canonical at hk
  split at hk <;> cases hk
  cases c with
  | removeMount mountpoint env => cases hm
  | recordMount storage mountpoint readOnly env =>
    cases hm
    rfl

theorem applyUpdate_of_not_lands (h : c.lands = false) : applyUpdate db c.update = db := by
  cases c with
  | recordMount storage mountpoint readOnly env =>
    have hlands : (env.writes && env.renames) = false := h
    simp [Call.update, applyUpdate, recordMount, hlands]
  | removeMount mountpoint env =>
    have hlands : (env.writes && env.renames) = false := h
    cases db <;> simp [Call.update, applyUpdate, removeMount, hlands]

/-- A call that lands leaves the file with the rows of the other mounts, after its own. -/
theorem Spells.lands (h : Spells db ms) (hc : c.WellFormed) (hlands : c.lands) :
    Spells (applyUpdate db c.update)
      (c.recorded.toList ++ ms.filter (fun m ↦ m.mountpoint ≠ c.mountpoint)) := by
  cases c with
  | recordMount storage mountpoint readOnly env =>
    set m := recordedMount storage mountpoint readOnly env with hm
    have hreadable : ∀ x ∈ m :: ms.filter (fun x ↦ x.mountpoint ≠ m.mountpoint), Readable x := by
      intro x hx
      rcases List.mem_cons.mp hx with rfl | hx
      · exact readable_of_wellFormed hc rfl
      · exact h.filter m.mountpoint x hx
    have hspells := spells_stem hreadable
    rw [List.map_cons, ← h.otherLines, ← spell_append_sep (by simp)] at hspells
    have hok : (env.writes && env.renames) = true := hlands
    simp only [Call.update, applyUpdate, recordMount, if_pos hok]
    exact hspells
  | removeMount mountpoint env =>
    have hspells := spells_joinLines (h.filter (env.canonicalizeMountpoint mountpoint))
    rw [← h.otherLines] at hspells
    cases db with
    | none =>
      have hms : ms = [] := by simpa using h.rows.symm
      subst hms
      exact h
    | some text =>
      have hok : (env.writes && env.renames) = true := hlands
      simp only [Call.update, applyUpdate, removeMount, if_pos hok]
      exact hspells

theorem Spells.step (h : Spells db ms) (hc : c.WellFormed) :
    Spells (applyUpdate db c.update)
      (touch MountInfo.mountpoint Call.canonical Call.recorded ms c) := by
  unfold touch Call.canonical
  cases hlands : c.lands with
  | false =>
    rw [applyUpdate_of_not_lands hlands]
    exact h
  | true => exact h.lands hc hlands

theorem spells_registry {calls : List Call} (hcalls : ∀ c ∈ calls, c.WellFormed) :
    Spells (calls.foldl (fun db c ↦ applyUpdate db c.update) none) (registry calls) := by
  induction calls using List.reverseRecOn with
  | nil => exact ⟨rfl, by simp [registry, recency]⟩
  | append_singleton calls c ih =>
    rw [List.foldl_concat, registry, recency_concat]
    exact (ih (fun x hx ↦ hcalls x (by simp [hx]))).step (hcalls c (by simp))

/-- After calls one by one the list shows each mountpoint whose last call recorded it, once and as
that call recorded it, and the mounts that were recorded later come first. -/
theorem mounts_after_calls {calls : List Call} (hcalls : ∀ c ∈ calls, c.WellFormed) :
    let mounts := readMounts (calls.foldl (fun db c ↦ applyUpdate db c.update) none)
    (mounts.map MountInfo.mountpoint).Nodup ∧
    (∀ m, m ∈ mounts ↔ Latest MountInfo.mountpoint Call.canonical Call.recorded calls m) ∧
    mounts.Pairwise (Later MountInfo.mountpoint Call.canonical Call.recorded calls) := by
  simp only [(spells_registry hcalls).readMounts]
  exact ⟨nodup_recency recorded_mountpoint, fun m ↦ mem_recency_iff recorded_mountpoint,
    pairwise_recency recorded_mountpoint⟩

/-- Two mounts are recorded, the first one again, and the other is removed. -/
theorem mounts_after_calls_sample :
    let calls : List Call := [.recordMount ['s'] ['m'] false plainEnv,
      .recordMount ['t'] ['n'] true plainEnv, .recordMount ['u'] ['m'] true plainEnv,
      .removeMount ['n'] plainEnv]
    let mounts := readMounts (calls.foldl (fun db c ↦ applyUpdate db c.update) none)
    mounts.map MountInfo.storage = [['u']] ∧
    ∀ m, m ∈ mounts ↔ Latest MountInfo.mountpoint Call.canonical Call.recorded calls m := by
  have henv : plainEnv.Faithful := ⟨by decide, fun _ h ↦ h, fun _ h ↦ h⟩
  have hplain : ∀ row : List Text, (row.all fun f ↦ f.all (!isControl ·)) = true →
      ∀ f ∈ row, ∀ c ∈ f, isControl c = false := by simp
  refine ⟨by decide, (mounts_after_calls ?_).2.1⟩
  intro c hc
  simp only [List.mem_cons, List.not_mem_nil, or_false] at hc
  rcases hc with rfl | rfl | rfl | rfl
  · exact ⟨by decide, by decide, henv, hplain _ (by decide)⟩
  · exact ⟨by decide, by decide, henv, hplain _ (by decide)⟩
  · exact ⟨by decide, by decide, henv, hplain _ (by decide)⟩
  · trivial

end Mntrs.Mount

import Mntrs.Names.InodeTable
import Mntrs.Names.Paths

/-!
# What a listing tells the stats after it

`list_op` remembers the attributes of the rows it returns (`src/src/lib.rs:2982-3005`) under keys
that are joined to the canonical spelling of the directory, and `stat_op_async` (`2435-2452`)
looks for the path of an inode. Below the root the canonical spelling ends with a slash already,
so a key has two slashes where the path has one.
-/

namespace Mntrs

open Base

variable {cfg : Config} {fs fs' : MntrsFs} {d p : Path} {row : ListOpRow} {rows : List ListOpRow}

/-- The full path of an entry of a directory. -/
def entryPath (d name : Path) : Path := childPath (spell '/' (segments d)) name

/-- The attributes a row lists. -/
def ListOpRow.stat (row : ListOpRow) : FileStat := ⟨row.mode.fileType, row.size, some row.mtime⟩

/-- The attributes an entry of `attr_cache` holds. -/
def AttrEntry.stat (e : AttrEntry) : FileStat := ⟨e.kind, e.size, e.mtime⟩

/-- A stat at time `t` answers with the given attributes from the cache, whatever the backend
would have said. -/
def StatsFromCache (cfg : Config) (fs : MntrsFs) (p : Path) (t : Nat) (st : FileStat) : Prop :=
  ∀ env : StatEnv, env.now = t → statOp cfg fs p env = (some st, fs)

/-- The entry of `attr_cache` is within its time to live. -/
def AttrEntry.freshAt (cfg : Config) (t : Nat) (e : AttrEntry) : Bool :=
  t - e.cachedAt < cfg.statCacheTtl

theorem statsFromCache_iff (hrefresh : cfg.vfsRefresh = false) {t : Nat} {st : FileStat} :
    StatsFromCache cfg fs p t st ↔
      ∃ e, fs.attrCache p = some e ∧ e.freshAt cfg t ∧ e.stat = st := by
  have hcached : ∀ env : StatEnv, env.now = t →
      (if cfg.vfsRefresh then none else
        (fs.attrCache p).filter (fun e ↦ env.now - e.cachedAt < cfg.statCacheTtl)) =
      (fs.attrCache p).filter (AttrEntry.freshAt cfg t) := by
    rintro env rfl
    rw [hrefresh]
    rfl
  constructor
  · intro h
    -- a stat that goes to a failing backend finds nothing
    have hfail := h ⟨some .unexpected, false, none, false, t⟩ rfl
    rw [statOp, hcached _ rfl] at hfail
    cases hfound : (fs.attrCache p).filter (AttrEntry.freshAt cfg t) with
    | none => simp [hfound, statBackend, opStat] at hfail
    | some e =>
      obtain ⟨he, hfresh⟩ := Option.filter_eq_some_iff.mp hfound
      simp only [hfound, Prod.mk.injEq, Option.some.injEq, and_true] at hfail
      exact ⟨e, he, hfresh, hfail⟩
  · rintro ⟨e, he, hfresh, rfl⟩ env henv
    rw [statOp, hcached env henv, he, Option.filter_some, if_pos hfresh]
    rfl

/-! ### The keys of the rows -/

/-- The row's key is the path of another row: the same name at the root, and a name with one more
slash below it. -/
def Covers (d : Path) (r row : ListOpRow) : Prop :=
  row.name = if segments d = [] then r.name else '/' :: r.name

instance (d : Path) (r row : ListOpRow) : Decidable (Covers d r row) :=
  inferInstanceAs (Decidable (_ = _))

theorem key_eq_entryPath_iff (d : Path) (r row : ListOpRow) :
    childPath (canonicalizeListPath d) r.name = entryPath d row.name ↔ Covers d r row := by
  rw [canonicalizeListPath_eq, entryPath, Covers]
  by_cases hsegs : segments d = []
  · simp [hsegs, childPath, eq_comm]
  · have hstem : stem '/' (segments d) ≠ [] := by
      rw [← spell_append_sep hsegs]
      simp
    have hspell : spell '/' (segments d) ≠ [] := by
      intro hnil
      apply hsegs
      rw [← segments_spell_of_clean (clean_segments d), hnil]
      rfl
    rw [childPath, if_neg hstem, childPath, if_neg hspell, if_neg hsegs,
      ← spell_append_sep hsegs, ]
    simp [eq_comm]

/-- The last row whose key is the path of the given one. -/
def lastCovering (d : Path) (rows : List ListOpRow) (row : ListOpRow) : Option ListOpRow :=
  rows.reverse.find? (fun r ↦ Covers d r row)

/-- Of several values under one key the last one stays. -/
theorem foldl_update_apply {α β γ : Type} [DecidableEq β] (key : α → β) (val : α → γ) (f : β → γ)
    (xs : List α) (b : β) :
    xs.foldl (fun f x ↦ Function.update f (key x) (val x)) f b =
      ((xs.reverse.find? (fun x ↦ key x = b)).map val).getD (f b) := by
  induction xs using List.reverseRecOn with
  | nil => rfl
  | append_singleton xs x ih =>
    by_cases hkey : key x = b
    · simp [hkey]
    · simp [hkey, Ne.symm hkey, ih]

/-! ### The listing -/

/-- A listing that was read from the backend leaves the attributes of its rows, the last of a key
winning, and those from before under the other keys. -/
theorem attrCache_listOp {env : ListEnv} (hcold : freshListing cfg fs d env.now = none)
    (hlist : listOp cfg fs d env = (.ok rows, fs')) (p : Path) :
    fs'.attrCache p =
      ((rows.reverse.find? (fun r ↦ childPath (canonicalizeListPath d) r.name = p)).map
        (fun r ↦ some ⟨r.mode.fileType, r.size, some r.mtime, env.now⟩)).getD (fs.attrCache p) := by
  unfold listOp at hlist
  rw [hcold] at hlist
  simp only at hlist
  split at hlist
  · cases hlist
  · next listed _ =>
    obtain ⟨_, _, _, halloc⟩ := allocRows_frame (dropListing fs d) listed ∅
    cases hlist
    rw [halloc]
    exact foldl_update_apply _ _ _ _ _

/-- The row's attributes are the last ones under the key that is its path, or were known before
the listing under its path and are still fresh. -/
def RememberedRow (cfg : Config) (fs : MntrsFs) (d : Path) (rows : List ListOpRow) (t : Nat)
    (row : ListOpRow) : Prop :=
  match lastCovering d rows row with
  | some r => r.stat = row.stat
  | none => ∃ e, fs.attrCache (entryPath d row.name) = some e ∧ e.freshAt cfg t ∧ e.stat = row.stat

/-- After a listing from the backend, while its attributes are within their time to live, stats of
its rows answer from the cache exactly for the rows that are remembered. -/
theorem listing_warms_stat_iff {env : ListEnv} {t : Nat} (hrefresh : cfg.vfsRefresh = false)
    (hcold : freshListing cfg fs d env.now = none)
    (hlist : listOp cfg fs d env = (.ok rows, fs')) (ht : t - env.now < cfg.statCacheTtl) :
    (∀ row ∈ rows, StatsFromCache cfg fs' (entryPath d row.name) t row.stat) ↔
      ∀ row ∈ rows, RememberedRow cfg fs d rows t row := by
  refine forall₂_congr fun row _ ↦ ?_
  rw [statsFromCache_iff hrefresh, attrCache_listOp hcold hlist, RememberedRow, lastCovering]
  simp only [key_eq_entryPath_iff]
  cases rows.reverse.find? (fun r ↦ Covers d r row) with
  | none => rfl
  | some r => simp [AttrEntry.freshAt, ht, AttrEntry.stat, ListOpRow.stat]

/-- A lister with one file. -/
def listerOfOne : ListEnv := ⟨.ok [.ok ⟨['f'], ⟨.file, 3, none⟩⟩], 5⟩

/-- At the root a stat is answered by the listing before it. -/
theorem listing_warms_stat_iff_sample :
    ∃ rows fs', listOp (.plain .off) emptyMount [] listerOfOne = (.ok rows, fs') ∧ rows ≠ [] ∧
      ∀ row ∈ rows, StatsFromCache (.plain .off) fs' (entryPath [] row.name) 14 row.stat := by
  obtain ⟨rows, fs', hlist, hrows⟩ :
      ∃ rows fs', listOp (.plain .off) emptyMount [] listerOfOne = (.ok rows, fs') ∧
        rows = [⟨['f'], .file, 3, 0, some 2⟩] := ⟨_, _, rfl, by decide⟩
  refine ⟨rows, fs', hlist, by simp [hrows],
    (listing_warms_stat_iff rfl (by rfl) hlist (by decide)).mpr ?_⟩
  intro row hrow
  subst hrows
  cases List.mem_singleton.mp hrow
  rfl

/-- Below the root it is not: the key has two slashes. -/
theorem listing_below_root_cold :
    ∃ rows fs', listOp (.plain .off) emptyMount ['d'] listerOfOne = (.ok rows, fs') ∧
      freshListing (.plain .off) emptyMount ['d'] 5 = none ∧
      (fs'.attrCache "d//f".toList).isSome ∧ ∃ row ∈ rows,
        entryPath ['d'] row.name = "d/f".toList ∧
        ¬ StatsFromCache (.plain .off) fs' (entryPath ['d'] row.name) 5 row.stat := by
  refine ⟨_, _, rfl, rfl, by decide, _, List.mem_singleton_self _, rfl, ?_⟩
  intro h
  have hfail := h ⟨some .unexpected, false, none, false, 5⟩ rfl
  exact absurd (congrArg Prod.fst hfail) (by decide)

end Mntrs

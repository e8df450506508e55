import Mntrs.Names.InodeNumbers
import Mntrs.Names.Paths

/-!
# The inodes a directory read shows

`list_op` allocates the inodes of a listing under the bare names the lister yields
(`src/src/lib.rs:2937-2957`), and the directory read shows them as they are. The path of a shown
inode is that of the entry when the listing is of the root, or when it was cached with such inodes
before.
-/

namespace Mntrs

open Base

variable {cfg : Config} {fs fs' : MntrsFs} {rows : List ListOpRow} {row : ListOpRow}
  {d n p path : Path} {ino : Ino} {env : ListEnv}

/-- The name of a row; a directory's own entry may have none. -/
def RowName (n : Path) : Prop := n = [] ∨ GoodName n

/-- The entries of a listing that a directory read shows have an inode with their path. -/
def Owned (live : Ino → Option Path) (d : Path) (entries : Table Path DirEntryCacheValue) : Prop :=
  ∀ n v, entries.lookup n = some v → RowName n ∧
    ∃ c, v.ino = some c ∧ (isPhantom d n = false → live c = some (childPath d n))

/-- Paths of names, sound reverse entries, and cached listings whose inodes have the paths of the
entries. -/
structure Owns (fs : MntrsFs) : Prop where
  mirrors : fs.registry.Mirrors Set.univ Set.univ
  paths : ∀ {i p}, fs.registry.live i = some p → NamePath p
  owned : ∀ key snap, fs.dirCache key = some snap →
    ∃ d, NamePath d ∧ key = canonicalizeListPath d ∧ Owned fs.registry.live d snap.entries

/-- The names a backend's lister yields are names, but for the directory's own. -/
def GoodLister (env : ListEnv) : Prop :=
  ∀ items, env.lister = .ok items → ∀ e, Except.ok e ∈ items → RowName (trimEndSlashes e.name)

/-- A name that a directory read gets from the backend for a directory other than the root, and
shows: its inode is allocated under the bare name. -/
def BareRow (cfg : Config) (fs : MntrsFs) (ino : Ino) (env : ListEnv) (n : Path) : Prop :=
  resolvePath fs ino ≠ [] ∧ freshListing cfg fs (resolvePath fs ino) env.now = none ∧
    ∃ rows, listRows cfg (resolvePath fs ino) env = .ok rows ∧
      ∃ row ∈ rows, row.name = n ∧ isPhantom (resolvePath fs ino) n = false

/-- A directory read. -/
def readdirStep (cfg : Config) (l : Ino × ListEnv) (fs : MntrsFs) : Option MntrsFs :=
  some (readdirMaterialise cfg fs l.1 l.2).2

/-- A directory read that goes to the backend is of the root or shows nothing. -/
def KeepsListed (cfg : Config) (fs : MntrsFs) (l : Ino × ListEnv) : Prop :=
  GoodLister l.2 ∧ ∀ n, ¬BareRow cfg fs l.1 l.2 n

/-- Each entry a directory read shows, but for the two dots, has an inode with the full path of
the entry, which is no path of an entry of that name in another directory. -/
def ShowsByPath (cfg : Config) (fs : MntrsFs) (ino : Ino) (env : ListEnv) : Prop :=
  ∀ entries, (readdirMaterialise cfg fs ino env).1 = .ok entries → ∀ e ∈ entries,
    e.name ≠ ['.'] → e.name ≠ ['.', '.'] →
    ∃ inode, (readdirMaterialise cfg fs ino env).2.inodes.lookup e.ino = some inode ∧
      inode.path = childPath (resolvePath fs ino) e.name ∧
      ∀ d, d ≠ resolvePath fs ino → inode.path ≠ childPath d e.name

/-! ### The rows of a listing -/

theorem mem_drainLister {depth room : Nat} {items : List (Except ErrorKind ListEntry)}
    (h : row ∈ drainLister cfg depth room items) :
    ∃ e, Except.ok e ∈ items ∧ row.name = trimEndSlashes e.name := by
  fun_induction drainLister cfg depth room items with
  | case1 | case2 => simp at h
  | case3 room e rest ih | case5 room e rest name hpass ih =>
    obtain ⟨e', he', hrow⟩ := ih h
    exact ⟨e', List.mem_cons_of_mem _ he', hrow⟩
  | case4 room e rest name hpass ih =>
    rcases List.mem_cons.mp h with rfl | hrest
    · exact ⟨e, List.mem_cons_self, rfl⟩
    · obtain ⟨e', he', hrow⟩ := ih hrest
      exact ⟨e', List.mem_cons_of_mem _ he', hrow⟩

theorem mem_of_mem_dropNormDupes {seen : List Path} (h : row ∈ dropNormDupes cfg seen rows) :
    row ∈ rows := by
  induction rows generalizing seen with
  | nil => exact h
  | cons r rows ih =>
    unfold dropNormDupes at h
    split at h
    · exact List.mem_cons_of_mem _ (ih h)
    · rcases List.mem_cons.mp h with rfl | h
      · exact List.mem_cons_self
      · exact List.mem_cons_of_mem _ (ih h)

/-- The rows a good lister gives have names. -/
theorem listRows_names (henv : GoodLister env) (h : listRows cfg path env = .ok rows) :
    ∀ row ∈ rows, RowName row.name := by
  intro row hrow
  unfold listRows at h
  split at h
  · cases h
    cases hrow
  · cases h
  · next items hitems =>
    have hdrained : row ∈ drainLister cfg ((canonicalizeListPath path).count '/') maxListEntries
        items := by
      cases h
      split at hrow
      · exact mem_of_mem_dropNormDupes hrow
      · exact hrow
    obtain ⟨e, he, hname⟩ := mem_drainLister hdrained
    exact hname ▸ henv items hitems e he

/-- A name alone spells a path. -/
theorem RowName.namePath (hn : RowName n) : NamePath n := by
  rcases hn with rfl | hn
  · exact namePath_nil
  · simpa [childPath] using namePath_nil.child hn

/-- A name a directory read shows is a name. -/
theorem RowName.good (hn : RowName n) (hshown : isPhantom d n = false) : GoodName n := by
  rcases hn with rfl | hn
  · simp [isPhantom] at hshown
  · exact hn

/-- The names of a listing made of rows. -/
theorem isSome_lookup_allocRows (fs : MntrsFs) (rows : List ListOpRow)
    (entries : Table Path DirEntryCacheValue) (n : Path) :
    ((allocRows fs rows entries).1.lookup n).isSome ↔
      (entries.lookup n).isSome ∨ ∃ row ∈ rows, row.name = n := by
  induction rows generalizing fs entries with
  | nil => simp [allocRows]
  | cons row rows ih =>
    rw [allocRows, ih]
    by_cases hn : n = row.name
    · subst hn
      simp
    · simp [AList.lookup_insert_ne hn, Ne.symm hn]

/-- Every row gets an inode under its bare name. -/
theorem live_allocRows (h : fs.registry.Mirrors Set.univ Set.univ)
    {entries : Table Path DirEntryCacheValue}
    (hentries : ∀ n v, entries.lookup n = some v →
      ∃ c, v.ino = some c ∧ fs.registry.live c = some n) :
    ∀ n v, (allocRows fs rows entries).1.lookup n = some v →
      ∃ c, v.ino = some c ∧ (allocRows fs rows entries).2.registry.live c = some n := by
  induction rows generalizing fs entries with
  | nil => exact hentries
  | cons row rows ih =>
    obtain ⟨hmirrors, hlive⟩ := mirrors_allocInode h row.name row.mode.fileType row.size
      (some row.mtime)
    refine ih hmirrors fun n v hn ↦ ?_
    by_cases hne : n = row.name
    · subst hne
      rw [AList.lookup_insert] at hn
      cases hn
      exact ⟨_, rfl, hlive⟩
    · rw [AList.lookup_insert_ne hne] at hn
      obtain ⟨c, hc, hold⟩ := hentries n v hn
      exact ⟨c, hc, (allots_allocInode fs row.name row.mode.fileType row.size _).1.kept hold⟩

private theorem paths_allocInode (hpaths : ∀ {i p}, fs.registry.live i = some p → NamePath p)
    (hpath : NamePath path) (kind : FileType) (size : Nat) (mtime : Option Nat) :
    ∀ {i p}, (allocInode fs path kind size mtime).2.registry.live i = some p → NamePath p := by
  intro i p hp
  unfold allocInode at hp
  split at hp
  · exact hpaths hp
  simp only [MntrsFs.registry] at hp
  by_cases hi : i = fs.nextIno
  · subst hi
    split at hp
    · rw [Table.lookup_modify, Option.map_map] at hp
      exact hpaths hp
    · rw [AList.lookup_insert] at hp
      cases hp
      exact hpath
  · split at hp
    · rw [Table.lookup_modify_of_ne _ _ hi] at hp
      exact hpaths hp
    · rw [AList.lookup_insert_ne hi] at hp
      exact hpaths hp

private theorem paths_allocRows (hpaths : ∀ {i p}, fs.registry.live i = some p → NamePath p)
    (hrows : ∀ row ∈ rows, RowName row.name) (entries : Table Path DirEntryCacheValue) :
    ∀ {i p}, (allocRows fs rows entries).2.registry.live i = some p → NamePath p := by
  induction rows generalizing fs entries with
  | nil => exact hpaths
  | cons row rows ih =>
    obtain ⟨hrow, hrest⟩ := List.forall_mem_cons.mp hrows
    exact ih (paths_allocInode hpaths hrow.namePath _ _ _) hrest _

/-! ### What a directory read leaves -/

namespace Owns

/-- A directory resolves to a path of names. -/
theorem resolvePath (h : Owns fs) (ino : Ino) : NamePath (resolvePath fs ino) := by
  change NamePath ((fs.registry.live ino).getD [])
  cases hlive : fs.registry.live ino with
  | none => exact namePath_nil
  | some p => exact h.paths hlive

/-- The listing of a directory has inodes for that directory. -/
theorem get (h : Owns fs) (hd : NamePath d) {snap : DirSnapshot}
    (hsnap : fs.dirCache (canonicalizeListPath d) = some snap) :
    Owned fs.registry.live d snap.entries := by
  obtain ⟨e, he, hkey, howned⟩ := h.owned _ snap hsnap
  exact canonicalizeListPath_inj hd he hkey ▸ howned

/-- Listings stay right while inodes keep their paths and listings are dropped at most. -/
theorem grows (h : Owns fs) (hmirrors : fs'.registry.Mirrors Set.univ Set.univ)
    (hpaths : ∀ {i p}, fs'.registry.live i = some p → NamePath p)
    (hkept : ∀ {i p}, fs.registry.live i = some p → fs'.registry.live i = some p)
    (hlistings : ∀ key snap, fs'.dirCache key = some snap → fs.dirCache key = some snap) :
    Owns fs' := by
  refine ⟨hmirrors, hpaths, fun key snap hsnap ↦ ?_⟩
  obtain ⟨d, hd, hkey, howned⟩ := h.owned key snap (hlistings key snap hsnap)
  refine ⟨d, hd, hkey, fun n v hn ↦ ?_⟩
  obtain ⟨hname, c, hc, hlive⟩ := howned n v hn
  exact ⟨hname, c, hc, fun hshown ↦ hkept (hlive hshown)⟩

theorem alloc (h : Owns fs) (hpath : NamePath path) (kind : FileType) (size : Nat)
    (mtime : Option Nat) : Owns (allocInode fs path kind size mtime).2 := by
  refine h.grows (mirrors_allocInode h.mirrors path kind size mtime).1
    (paths_allocInode h.paths hpath kind size mtime)
    (allots_allocInode fs path kind size mtime).1.kept fun key snap hsnap ↦ ?_
  rwa [allocInode_frame] at hsnap

theorem drop (h : Owns fs) (d : Path) : Owns (dropListing fs d) := by
  refine h.grows h.mirrors h.paths id fun key snap hsnap ↦ ?_
  simp only [dropListing, Function.update_apply] at hsnap
  split_ifs at hsnap
  exact hsnap

/-- A new listing of the root, or one that shows nothing, is put in. -/
theorem fill (h : Owns fs) (hd : NamePath d) (now : Nat) (hrows : ∀ row ∈ rows, RowName row.name)
    (hbare : d = [] ∨ ∀ row ∈ rows, isPhantom d row.name = true) :
    Owns (fillListing fs d now rows).2 := by
  have hdropped := h.drop d
  have halloc := allocates_allocRows (dropListing fs d) rows ∅
  obtain ⟨_, _, _, hframe⟩ := allocRows_frame (dropListing fs d) rows ∅
  have hfilled : Owns (allocRows (dropListing fs d) rows ∅).2 := by
    refine hdropped.grows (halloc.mirrors hdropped.mirrors)
      (paths_allocRows hdropped.paths hrows ∅) halloc.allots.kept fun key snap hsnap ↦ ?_
    rwa [hframe] at hsnap
  refine ⟨hfilled.mirrors, hfilled.paths, fun key snap hsnap ↦ ?_⟩
  simp only [fillListing, cacheRowAttrs, Function.update_apply] at hsnap
  split_ifs at hsnap with hkey
  · cases hsnap
    refine ⟨d, hd, hkey, fun n v hn ↦ ?_⟩
    have hlisted := (isSome_lookup_allocRows _ _ _ n).mp (Option.isSome_of_eq_some hn)
    obtain ⟨row, hrow, rfl⟩ := hlisted.resolve_left (by simp)
    obtain ⟨c, hc, hlive⟩ := live_allocRows hdropped.mirrors (by simp) row.name v hn
    refine ⟨hrows row hrow, c, hc, fun hshown ↦ ?_⟩
    rcases hbare with rfl | hphantom
    · exact hlive
    · rw [hphantom row hrow] at hshown
      cases hshown
  · exact hfilled.owned key snap hsnap

end Owns

theorem emitEntries_eq (fs : MntrsFs) (path : Path) (hrows : ∀ row ∈ rows, row.ino.isSome) :
    emitEntries fs path rows =
      ((rows.filter (fun row ↦ !isPhantom path row.name)).map
        (fun row ↦ ⟨row.ino.getD 0, row.mode.fileType, displayName row.name⟩), fs) := by
  induction rows generalizing fs with
  | nil => rfl
  | cons row rows ih =>
    obtain ⟨hrow, hrest⟩ := List.forall_mem_cons.mp hrows
    obtain ⟨ino, hino⟩ := Option.isSome_iff_exists.mp hrow
    unfold emitEntries
    split
    · next hphantom => rw [ih fs hrest, List.filter_cons_of_neg (by simp [hphantom])]
    · next hphantom =>
      rw [List.filter_cons_of_pos (by simpa using hphantom)]
      simp [hino, ih fs hrest]

/-- The rows of a cached listing that is right. -/
theorem Owns.snapshotRows (h : Owns fs) (hd : NamePath d) {snap : DirSnapshot}
    (hsnap : fs.dirCache (canonicalizeListPath d) = some snap) :
    ∀ row ∈ snap.rows, RowName row.name ∧ ∃ c, row.ino = some c ∧
      (isPhantom d row.name = false → fs.registry.live c = some (childPath d row.name)) := by
  intro row hrow
  obtain ⟨e, he, rfl⟩ := List.mem_map.mp hrow
  exact h.get hd hsnap e.1 e.2 (Table.lookup_eq_some_iff.mpr he)

/-- The rows of a listing that comes from the backend have inodes with their bare names. -/
theorem rows_fillListing (h : fs.registry.Mirrors Set.univ Set.univ) (d : Path) (now : Nat)
    (rows : List ListOpRow) :
    ∀ row ∈ (fillListing fs d now rows).1, (∃ r ∈ rows, r.name = row.name) ∧
      ∃ c, row.ino = some c ∧ (fillListing fs d now rows).2.registry.live c = some row.name := by
  intro row hrow
  obtain ⟨r, hr, rfl⟩ := List.mem_map.mp hrow
  have hlisted : ((allocRows (dropListing fs d) rows ∅).1.lookup r.name).isSome :=
    (isSome_lookup_allocRows _ _ _ _).mpr (.inr ⟨r, hr, rfl⟩)
  obtain ⟨v, hv⟩ := Option.isSome_iff_exists.mp hlisted
  obtain ⟨c, hc, hlive⟩ := @live_allocRows (dropListing fs d) rows h ∅ (by simp) r.name v hv
  exact ⟨⟨r, hr, rfl⟩, c, by simp [hv, hc], hlive⟩

theorem showRows_eq {fs : MntrsFs} {d : Path} {rows : List ListOpRow} (ino : Ino)
    (hrows : ∀ row ∈ rows, row.ino.isSome) :
    (showRows fs ino d rows).2 = fs ∧
      ∀ entries, (showRows fs ino d rows).1 = .ok entries → ∀ e, e ∈ entries ↔
        childPath d e.name ∉ fs.deleteTombstones ∧
          (e = ⟨ino, .directory, ['.']⟩ ∨ e = ⟨1, .directory, ['.', '.']⟩ ∨
            ∃ row ∈ rows, isPhantom d row.name = false ∧
              e = ⟨row.ino.getD 0, row.mode.fileType, displayName row.name⟩) := by
  unfold showRows
  rw [emitEntries_eq fs d hrows]
  refine ⟨rfl, fun entries hentries e ↦ ?_⟩
  cases hentries
  simp only [hideTombstoned, List.mem_filter, decide_eq_true_eq, List.cons_append, List.nil_append,
    List.mem_cons, List.mem_map, Bool.not_eq_true']
  rw [and_comm]
  simp [and_assoc, @eq_comm _ _ e]

/-- Every such read keeps the inodes of cached listings right. -/
theorem Owns.step {l : Ino × ListEnv} (h : Owns fs) (hguard : KeepsListed cfg fs l)
    (hstep : readdirStep cfg l fs = some fs') : Owns fs' := by
  obtain ⟨ino, env⟩ := l
  cases hstep
  have hd := h.resolvePath ino
  have halloc := h.alloc hd .directory 4096 none
  rcases readdirMaterialise_cases cfg fs ino env with
    ⟨snap, hsnap, hread⟩ | ⟨hfresh, ⟨e, -, hread⟩ | ⟨rows, hrows, hread⟩⟩
  · have hinos := h.snapshotRows hd (Option.filter_eq_some_iff.mp hsnap).1
    rw [hread, (showRows_eq ino fun row hrow ↦ ?_).1]
    · exact halloc
    · obtain ⟨-, c, hc, -⟩ := hinos row hrow
      exact Option.isSome_of_eq_some hc
  · rw [hread]
    exact halloc.drop _
  · rw [hread, (showRows_eq ino fun row hrow ↦ ?_).1]
    · refine halloc.fill hd env.now (listRows_names hguard.1 hrows) ?_
      by_cases hroot : Mntrs.resolvePath fs ino = []
      · exact .inl hroot
      · refine .inr fun row hrow ↦ ?_
        by_contra hshown
        rw [Bool.not_eq_true] at hshown
        exact hguard.2 row.name ⟨hroot, hfresh, rows, hrows, row, hrow, rfl, hshown⟩
    · obtain ⟨-, c, hc, -⟩ := rows_fillListing halloc.mirrors _ env.now rows row hrow
      exact Option.isSome_of_eq_some hc

theorem showsByPath_iff (hread : readdirMaterialise cfg fs ino env =
      showRows fs' ino (resolvePath fs ino) rows)
    (htombs : fs'.deleteTombstones = fs.deleteTombstones)
    (hrows : ∀ row ∈ rows, RowName row.name ∧ ∃ c, row.ino = some c) :
    ShowsByPath cfg fs ino env ↔ ∀ row ∈ rows, isPhantom (resolvePath fs ino) row.name = false →
      childPath (resolvePath fs ino) row.name ∉ fs.deleteTombstones →
      ∀ c, row.ino = some c →
        fs'.registry.live c = some (childPath (resolvePath fs ino) row.name) := by
  obtain ⟨hstate, hentries⟩ := @showRows_eq fs' (resolvePath fs ino) rows ino
    fun row hrow ↦ Option.isSome_iff_exists.mpr (hrows row hrow).2
  unfold ShowsByPath
  rw [hread, hstate]
  have hdisplay : ∀ row ∈ rows, isPhantom (resolvePath fs ino) row.name = false →
      displayName row.name = row.name :=
    fun row hrow hshown ↦ displayName_eq ((hrows row hrow).1.good hshown).2.1
  constructor
  · intro h row hrow hshown htomb c hc
    have hgood := (hrows row hrow).1.good hshown
    have hmem := (hentries _ rfl ⟨c, row.mode.fileType, row.name⟩).mpr
      ⟨htombs ▸ htomb, .inr (.inr ⟨row, hrow, hshown, by
        rw [hdisplay row hrow hshown, hc, Option.getD_some]⟩)⟩
    obtain ⟨inode, hinode, hpath, -⟩ := h _ rfl _ hmem hgood.2.2.1 hgood.2.2.2
    simpa [MntrsFs.registry, hinode] using hpath
  · intro h entries hok e he hdot hdotdot
    obtain ⟨htomb, rfl | rfl | ⟨row, hrow, hshown, rfl⟩⟩ := (hentries entries hok e).mp he
    · exact absurd rfl hdot
    · exact absurd rfl hdotdot
    · obtain ⟨-, c, hc⟩ := hrows row hrow
      simp only [hdisplay row hrow hshown, htombs] at htomb ⊢
      have hlive := h row hrow hshown htomb c hc
      simp only [MntrsFs.registry, Option.map_eq_some_iff] at hlive
      obtain ⟨inode, hinode, hpath⟩ := hlive
      refine ⟨inode, by rw [hc]; exact hinode, hpath, fun d hd heq ↦ hd ?_⟩
      exact (childPath_left_inj (hpath.symm.trans heq)).symm

/-- A read of a new listing shows inodes with the bare names of the rows. -/
private theorem showsByPath_filled {fs₁ : MntrsFs}
    (hmirrors : fs₁.registry.Mirrors Set.univ Set.univ)
    (htombs : fs₁.deleteTombstones = fs.deleteTombstones)
    (hnames : ∀ row ∈ rows, RowName row.name)
    (hread : readdirMaterialise cfg fs ino env =
      showRows (fillListing fs₁ (resolvePath fs ino) env.now rows).2 ino (resolvePath fs ino)
        (fillListing fs₁ (resolvePath fs ino) env.now rows).1) :
    ShowsByPath cfg fs ino env ↔ resolvePath fs ino = [] ∨
      ∀ row ∈ rows, isPhantom (resolvePath fs ino) row.name = false →
        childPath (resolvePath fs ino) row.name ∈ fs.deleteTombstones := by
  have hinos := rows_fillListing hmirrors (resolvePath fs ino) env.now rows
  have hfilled : (fillListing fs₁ (resolvePath fs ino) env.now rows).2.deleteTombstones =
      fs.deleteTombstones := by
    obtain ⟨_, _, _, _, hframe⟩ := fillListing_frame fs₁ (resolvePath fs ino) env.now rows
    rw [hframe, htombs]
  rw [showsByPath_iff hread hfilled fun row hrow ↦ ?_]
  · constructor
    · intro hshows
      by_cases hroot : resolvePath fs ino = []
      · exact .inl hroot
      · refine .inr fun r hr hshown ↦ ?_
        by_contra htomb
        -- the inode of the row has its bare name, which is not its path
        obtain ⟨row, hrow, hname⟩ : ∃ row ∈ (fillListing fs₁ (resolvePath fs ino) env.now rows).1,
            row.name = r.name := ⟨_, List.mem_map_of_mem hr, rfl⟩
        rw [← hname] at hshown htomb
        obtain ⟨-, c, hc, hlive⟩ := hinos row hrow
        have hpath := hshows row hrow hshown htomb c hc
        have hlength := congrArg List.length (Option.some.inj (hlive.symm.trans hpath))
        simp only [childPath, hroot, if_false, List.length_append, List.length_cons] at hlength
        omega
    · intro h row hrow hshown htomb c hc
      obtain ⟨⟨r, hr, hname⟩, c', hc', hlive⟩ := hinos row hrow
      cases hc.symm.trans hc'
      rcases h with hroot | hhidden
      · rw [hlive, hroot]
        rfl
      · rw [← hname] at hshown htomb
        exact absurd (hhidden r hr hshown) htomb
  · obtain ⟨⟨r, hr, hname⟩, c, hc, -⟩ := hinos row hrow
    exact ⟨hname ▸ hnames r hr, c, hc⟩

/-- After every sequence of directory reads in which one that goes to the backend is of the root
or shows nothing, a directory read shows inodes with the full paths of its entries exactly when it
gets no visible entry of a directory other than the root from the backend. -/
theorem listed_inodes_of_run {start : MntrsFs} (hstart : Owns start)
    (hrun : GuardedRun (readdirStep cfg) (KeepsListed cfg) start fs) (ino : Ino)
    (henv : GoodLister env) :
    ShowsByPath cfg fs ino env ↔ ∀ n, BareRow cfg fs ino env n →
      childPath (resolvePath fs ino) n ∈ fs.deleteTombstones := by
  have h : Owns fs := hrun.invariant Owns (fun _ _ _ h hguard hstep ↦ h.step hguard hstep) hstart
  have hd := h.resolvePath ino
  have hkept := (allots_allocInode fs (resolvePath fs ino) .directory 4096 none).1
  have halloc := h.alloc hd .directory 4096 none
  have htombs : (allocInode fs (resolvePath fs ino) .directory 4096 none).2.deleteTombstones =
      fs.deleteTombstones := by rw [allocInode_frame]
  rcases readdirMaterialise_cases cfg fs ino env with
    ⟨snap, hsnap, hread⟩ | ⟨hfresh, ⟨e, herror, hread⟩ | ⟨rows, hrows, hread⟩⟩
  · -- a cached listing: the invariant says all
    have hinos := h.snapshotRows hd (Option.filter_eq_some_iff.mp hsnap).1
    rw [showsByPath_iff hread htombs fun row hrow ↦
      (hinos row hrow).imp_right fun ⟨c, hc⟩ ↦ ⟨c, hc.1⟩]
    constructor
    · rintro - n ⟨-, hfresh, -⟩
      rw [hsnap] at hfresh
      cases hfresh
    · intro _ row hrow hshown _ c hc
      obtain ⟨-, c', hc', hlive⟩ := hinos row hrow
      cases hc.symm.trans hc'
      exact hkept.kept (hlive hshown)
  · constructor
    · rintro - n ⟨-, -, rows, hrows, -⟩
      rw [herror] at hrows
      cases hrows
    · intro _ entries hok
      rw [hread] at hok
      cases hok
  · rw [showsByPath_filled halloc.mirrors htombs (listRows_names henv hrows) hread]
    constructor
    · rintro hshows n ⟨hroot, -, rows', hrows', row, hrow, rfl, hshown⟩
      cases hrows.symm.trans hrows'
      exact hshows.resolve_left hroot row hrow hshown
    · intro hbare
      by_cases hroot : resolvePath fs ino = []
      · exact .inl hroot
      · exact .inr fun row hrow hshown ↦
          hbare row.name ⟨hroot, hfresh, rows, hrows, row, hrow, rfl, hshown⟩

theorem owns_started (backend : Path → Option Bytes) (disk : Disk)
    (deleter : Option ConcurrentDeleter) : Owns (.started backend disk deleter) :=
  ⟨Registry.mirrors_empty _ _ 2, nofun, nofun⟩

/-- A file of the root is shown with the inode of its path, also from the cached listing. -/
theorem listed_inodes_of_run_sample :
    ∃ fs, GuardedRun (readdirStep (.plain .off)) (KeepsListed (.plain .off)) emptyMount fs ∧
      (readdirMaterialise (.plain .off) fs 1 (listed [] 0)).1 = .ok
        [⟨1, .directory, ['.']⟩, ⟨1, .directory, ['.', '.']⟩, ⟨3, .regularFile, ['x']⟩] ∧
      ShowsByPath (.plain .off) fs 1 (listed [] 0) := by
  have hx : GoodName ['x'] := by decide
  have hgood : GoodLister (listed [['x']] 0) := by
    intro items hitems e he
    cases hitems
    cases List.mem_singleton.mp he
    exact .inr hx
  have hrun : GuardedRun (readdirStep (.plain .off)) (KeepsListed (.plain .off)) emptyMount
      (readdirMaterialise (.plain .off) emptyMount 1 (listed [['x']] 0)).2 := by
    refine guardedRun_of_exec (show exec (readdirStep (.plain .off)) [(1, listed [['x']] 0)]
      emptyMount = some _ from rfl) ⟨⟨hgood, ?_⟩, fun _ _ ↦ trivial⟩
    rintro n ⟨hroot, -⟩
    exact hroot rfl
  refine ⟨_, hrun, rfl, (listed_inodes_of_run (owns_started _ _ _) hrun 1 ?_).mpr ?_⟩
  · intro items hitems e he
    cases hitems
    cases he
  · rintro n ⟨hroot, -⟩
    exact absurd rfl hroot

/-- Two directories with a file of the same name. -/
def twoDirectories : MntrsFs :=
  .started (fun p ↦ if p = ['d', '/', 'x'] ∨ p = ['e', '/', 'x'] then some [0] else none)
    .empty none

/-- Both files are shown with one inode, whose path is the bare name. -/
theorem listed_inodes_shared :
    ∃ fs, exec (nameStep (.plain .off))
        [.lookup 1 ['d'] ⟨none, true, none, true, 0⟩, .lookup 1 ['e'] ⟨none, true, none, true, 0⟩]
        twoDirectories = some fs ∧
      ¬ ShowsByPath (.plain .off) fs 2 (listed [['x']] 0) ∧
      (readdirMaterialise (.plain .off) fs 2 (listed [['x']] 0)).1 = .ok
        [⟨2, .directory, ['.']⟩, ⟨1, .directory, ['.', '.']⟩, ⟨4, .regularFile, ['x']⟩] ∧
      (readdirMaterialise (.plain .off)
          (readdirMaterialise (.plain .off) fs 2 (listed [['x']] 0)).2 3 (listed [['x']] 0)).1 = .ok
        [⟨3, .directory, ['.']⟩, ⟨1, .directory, ['.', '.']⟩, ⟨4, .regularFile, ['x']⟩] := by
  refine ⟨_, rfl, ?_, rfl, rfl⟩
  intro hshows
  obtain ⟨inode, hinode, hpath, -⟩ := hshows _ rfl ⟨4, .regularFile, ['x']⟩ (by decide)
    (by decide) (by decide)
  cases hinode
  revert hpath
  decide

end Mntrs

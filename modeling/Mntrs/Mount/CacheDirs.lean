import Mntrs.Base.Machine
import Mntrs.Model.HostPath

/-!
# The cache directories of the mounts of one process

`mount_internal` works in the cache directory its caller chose or in one named after the
mountpoint, and registers it; `unmount_internal` removes a cache directory. Models
`src/src/cmd/mount.rs:559-574` (`mount_internal`), `717-733` (`cache_dir_for_mount`) and
`738-868` (`unmount_internal`), one call after another.
-/

namespace Mntrs.Mount

open Base

/-- The host a process runs on: its working directory, the directory for temporary files, and
the canonical spelling of a mountpoint. -/
structure Host where
  cwd : Dir
  tmp : List Char
  canonicalize : List Char → List Char

/-- A mountpoint as one name. -/
def slug (mountpoint : List Char) : List Char :=
  mountpoint.map (fun c ↦ if c = '/' ∨ c = ':' then '_' else c)

/-- The directory of the default cache directories. -/
def cacheRoot (host : Host) : List Char := host.tmp ++ "/mntrs-csi-cache".toList

/-- `cache_dir_for_mount`. -/
def cacheDirForMount (host : Host) (mountpoint : List Char) : List Char :=
  cacheRoot host ++ '/' :: slug mountpoint

/-- A live mount, the cache directory it works in, and whether its caller chose that. -/
structure LiveMount where
  mountpoint : List Char
  cacheDir : List Char
  chosen : Bool
deriving DecidableEq, Repr

/-- The map `MOUNT_CACHE_DIR`, the live mounts, and the mountpoint whose session is parked in
`FUSE_SESSION`. -/
structure Process where
  mountCacheDir : List Char → Option (List Char)
  live : List LiveMount
  session : Option (List Char)

/-- No mount was ever made. -/
def Process.initial : Process := ⟨fun _ ↦ none, [], none⟩

section

variable (host : Host)

/-- Whether two spellings name the same mountpoint. -/
def SameMountpoint (m m' : List Char) : Prop := host.canonicalize m = host.canonicalize m'

instance (m m' : List Char) : Decidable (SameMountpoint host m m') :=
  inferInstanceAs (Decidable (_ = _))

/-- `is_mount_point`. -/
def isMountPoint (p : Process) (m : List Char) : Bool :=
  p.live.any (fun x ↦ SameMountpoint host x.mountpoint m)

/-- The cache directory `mount_internal` works in. -/
def chosenCacheDir (m : List Char) (cacheDir : Option (List Char)) : List Char :=
  cacheDir.getD (cacheDirForMount host m)

/-- `mount_internal` until its session is parked; `mounts` is whether `mount` succeeds. The map
is written before the mountpoint is looked at, and a session that was parked is dropped and so
unmounted. -/
def mountInternal (p : Process) (m : List Char) (cacheDir : Option (List Char)) (mounts : Bool) :
    Process :=
  let dir := chosenCacheDir host m cacheDir
  let p := { p with mountCacheDir := Function.update p.mountCacheDir m (some dir) }
  if isMountPoint host p m || !mounts then p
  else
    { p with
      live := p.live.filter (fun x ↦ p.session ≠ some x.mountpoint) ++ [⟨m, dir, cacheDir.isSome⟩]
      session := some m }

/-- Whether the steps of an `unmount_internal` succeed. -/
structure UnmountEnv where
  joins : Bool
  unmounts : Bool
deriving DecidableEq, Repr

/-- `unmount_internal`: the process afterwards and the directory that is removed. A parked session
is shut down and the map names the directory; otherwise the mountpoint is unmounted, by force if
need be, and the directory is the default one. -/
def unmountInternal (p : Process) (m : List Char) (env : UnmountEnv) :
    Process × List Char :=
  let fallback := { p with
    live := if env.unmounts then p.live.filter (fun x ↦ ¬ SameMountpoint host x.mountpoint m)
      else p.live
    session := none }
  match p.session with
  | none => (fallback, cacheDirForMount host m)
  | some m' =>
    if env.joins then
      ({ p with live := p.live.filter (fun x ↦ x.mountpoint ≠ m'), session := none },
        (p.mountCacheDir m).getD (cacheDirForMount host m))
    else (fallback, cacheDirForMount host m)

/-- Calls one after another. Between them a mount comes back for its session. -/
inductive MountLabel where
  | mountInternal (m : List Char) (cacheDir : Option (List Char)) (mounts : Bool)
  | takeSession
  | unmountInternal (m : List Char) (env : UnmountEnv)
deriving DecidableEq, Repr

def mountStep (l : MountLabel) (p : Process) : Option Process :=
  match l with
  | .mountInternal m cacheDir mounts => some (mountInternal host p m cacheDir mounts)
  | .takeSession => some { p with session := none }
  | .unmountInternal m env => some (unmountInternal host p m env).1

/-- Default directories of different mountpoints are different. -/
def Isolated (p : Process) : Prop :=
  ∀ x ∈ p.live, ∀ y ∈ p.live, ¬ SameMountpoint host x.mountpoint y.mountpoint →
    x.chosen = false → y.chosen = false →
    resolve host.cwd x.cacheDir ≠ resolve host.cwd y.cacheDir

/-- The directory is the one the live mount of `m` works in, and holds no other mount's. -/
structure RemovesOwn (p : Process) (m : List Char) (dir : List Char) : Prop where
  own : ∀ x ∈ p.live, SameMountpoint host x.mountpoint m →
    resolve host.cwd x.cacheDir = resolve host.cwd dir
  other : ∀ x ∈ p.live, ¬ SameMountpoint host x.mountpoint m →
    ¬ resolve host.cwd dir <+: resolve host.cwd x.cacheDir

instance (p : Process) : Decidable (Isolated host p) :=
  inferInstanceAs (Decidable (∀ x ∈ p.live, ∀ y ∈ p.live, _))

instance (p : Process) (m dir : List Char) : Decidable (RemovesOwn host p m dir) :=
  decidable_of_iff
    ((∀ x ∈ p.live, SameMountpoint host x.mountpoint m →
        resolve host.cwd x.cacheDir = resolve host.cwd dir) ∧
      ∀ x ∈ p.live, ¬ SameMountpoint host x.mountpoint m →
        ¬ resolve host.cwd dir <+: resolve host.cwd x.cacheDir)
    ⟨fun ⟨own, other⟩ ↦ ⟨own, other⟩, fun h ↦ ⟨h.own, h.other⟩⟩

/-! ### Conditions -/

/-- A mountpoint is always spelled the same. -/
def SameSpelling (p : Process) (m : List Char) : Prop :=
  ∀ x ∈ p.live, SameMountpoint host x.mountpoint m → x.mountpoint = m

/-- The mountpoint makes a name that no live mount with a default directory makes. -/
def OwnSlug (p : Process) (m : List Char) : Prop :=
  ProperName (slug m) ∧
    ∀ x ∈ p.live, x.chosen = false → x.mountpoint ≠ m → slug x.mountpoint ≠ slug m

/-- A chosen directory has nothing to do with the default ones and those of the live mounts. -/
def OwnCacheDir (p : Process) (m dir : List Char) : Prop :=
  (resolve host.cwd dir).Apart (resolve host.cwd (cacheRoot host ++ ['/'])) ∧
    ∀ x ∈ p.live, x.mountpoint ≠ m → (resolve host.cwd dir).Apart (resolve host.cwd x.cacheDir)

/-- The directory of a mount is its own. -/
def OwnDir (p : Process) (m : List Char) : Option (List Char) → Prop
  | none => OwnSlug p m
  | some dir => OwnCacheDir host p m dir

/-- Mountpoints have names of their own, chosen directories are apart, and a mounted path is not
mounted again with another directory. -/
def KeepsApart (p : Process) : MountLabel → Prop
  | .mountInternal m cacheDir _ =>
    (∀ x ∈ p.live, x.mountpoint = m → chosenCacheDir host m cacheDir = x.cacheDir) ∧
      OwnDir host p m cacheDir
  | _ => True

/-- An unmount spells the mountpoint as the mount did, and finds no session of another mountpoint
and, if the directory was chosen, its own session. -/
def OwnUnmount (p : Process) (m : List Char) (env : UnmountEnv) : Prop :=
  SameSpelling host p m ∧ OwnSlug p m ∧ (∀ m' ∈ p.session, m' = m) ∧
    ∀ x ∈ p.live, x.mountpoint = m → x.chosen = true → p.session = some m ∧ env.joins = true

instance (p : Process) (m : List Char) : Decidable (SameSpelling host p m) :=
  inferInstanceAs (Decidable (∀ x ∈ p.live, _))

instance (p : Process) (m : List Char) : Decidable (OwnSlug p m) :=
  inferInstanceAs (Decidable (_ ∧ ∀ x ∈ p.live, _))

instance (p : Process) (m dir : List Char) : Decidable (OwnCacheDir host p m dir) :=
  inferInstanceAs (Decidable (_ ∧ ∀ x ∈ p.live, _))

instance (p : Process) (m : List Char) : ∀ dir, Decidable (OwnDir host p m dir)
  | none => inferInstanceAs (Decidable (OwnSlug p m))
  | some dir => inferInstanceAs (Decidable (OwnCacheDir host p m dir))

instance (p : Process) : ∀ l, Decidable (KeepsApart host p l)
  | .mountInternal .. => inferInstanceAs (Decidable ((∀ x ∈ p.live, _) ∧ _))
  | .takeSession | .unmountInternal .. => isTrue trivial

instance (p : Process) (m : List Char) (env : UnmountEnv) : Decidable (OwnUnmount host p m env) :=
  inferInstanceAs (Decidable (_ ∧ _ ∧ (∀ m' ∈ p.session, _) ∧ ∀ x ∈ p.live, _))

end

/-! ### What such calls keep -/

variable {host : Host} {p p' : Process} {m : List Char}

/-- What holds of the live mounts. -/
structure Registered (host : Host) (p : Process) : Prop where
  map : ∀ x ∈ p.live, p.mountCacheDir x.mountpoint = some x.cacheDir
  one : ∀ x ∈ p.live, ∀ y ∈ p.live, SameMountpoint host x.mountpoint y.mountpoint → x = y
  default : ∀ x ∈ p.live, x.chosen = false →
    x.cacheDir = cacheDirForMount host x.mountpoint ∧ ProperName (slug x.mountpoint)
  slugs : ∀ x ∈ p.live, ∀ y ∈ p.live, x.chosen = false → y.chosen = false →
    x.mountpoint ≠ y.mountpoint → slug x.mountpoint ≠ slug y.mountpoint
  root : ∀ x ∈ p.live, x.chosen = true →
    (resolve host.cwd x.cacheDir).Apart (resolve host.cwd (cacheRoot host ++ ['/']))
  chosen : ∀ x ∈ p.live, ∀ y ∈ p.live, x.chosen = true → x.mountpoint ≠ y.mountpoint →
    (resolve host.cwd x.cacheDir).Apart (resolve host.cwd y.cacheDir)
  session : ∀ m ∈ p.session, ∃ x ∈ p.live, x.mountpoint = m

theorem slash_notMem_slug (m : List Char) : '/' ∉ slug m := by
  intro hmem
  obtain ⟨c, -, hc⟩ := List.mem_map.mp hmem
  split at hc
  · cases hc
  · next hne => exact hne (.inl hc)

theorem resolve_cacheDirForMount (h : ProperName (slug m)) :
    resolve host.cwd (cacheDirForMount host m) =
      resolve host.cwd (cacheRoot host ++ ['/']) ++ [slug m] := by
  rw [cacheDirForMount, resolve_append_name _ _ (slash_notMem_slug m), h.enter]

theorem isMountPoint_iff :
    isMountPoint host p m = true ↔ ∃ x ∈ p.live, SameMountpoint host x.mountpoint m := by
  simp [isMountPoint]

section

variable (h : Registered host p)
include h

/-- A mount with a default directory is not disturbed below the default directory of another
name. -/
theorem Registered.apart_default {x : LiveMount} (hx : x ∈ p.live) (hname : ProperName (slug m))
    (hslug : x.chosen = false → slug x.mountpoint ≠ slug m) :
    (resolve host.cwd (cacheDirForMount host m)).Apart (resolve host.cwd x.cacheDir) := by
  rw [resolve_cacheDirForMount hname]
  cases hchosen : x.chosen with
  | false =>
    obtain ⟨hdir, hproper⟩ := h.default x hx hchosen
    rw [hdir, resolve_cacheDirForMount hproper]
    exact apart_of_ne (hslug hchosen).symm
  | true =>
    obtain ⟨habove, hbelow⟩ := h.root x hx hchosen
    exact ⟨fun hpre ↦ hbelow ((List.prefix_append _ _).trans hpre), fun hpre ↦ by
      rcases List.prefix_concat_iff.mp hpre with heq | hroot
      · exact hbelow (heq ▸ List.prefix_append _ _)
      · exact habove hroot⟩

theorem Registered.restrict {live : List LiveMount} (hlive : ∀ x ∈ live, x ∈ p.live) :
    Registered host { p with live := live, session := none } where
  map x hx := h.map x (hlive x hx)
  one x hx y hy := h.one x (hlive x hx) y (hlive y hy)
  default x hx := h.default x (hlive x hx)
  slugs x hx y hy := h.slugs x (hlive x hx) y (hlive y hy)
  root x hx := h.root x (hlive x hx)
  chosen x hx y hy := h.chosen x (hlive x hx) y (hlive y hy)
  session m hm := by cases hm

/-- The map entry of a mountpoint is written. If it is live, the entry stays what it was. -/
theorem Registered.register {dir : List Char}
    (hdir : ∀ x ∈ p.live, x.mountpoint = m → dir = x.cacheDir) :
    Registered host
      { p with mountCacheDir := Function.update p.mountCacheDir m (some dir) } :=
  { h with
    map := fun x hx ↦ by
      by_cases hm : x.mountpoint = m
      · simp [hm, hdir x hx hm]
      · simp [hm, h.map x hx] }

/-- One more live mount. -/
theorem Registered.mounted (hnew : isMountPoint host p m = false) {cacheDir : Option (List Char)}
    (hmap : p.mountCacheDir m = some (chosenCacheDir host m cacheDir))
    (hdir : OwnDir host p m cacheDir) :
    Registered host
      { p with
        live := p.live ++ [⟨m, chosenCacheDir host m cacheDir, cacheDir.isSome⟩]
        session := some m } := by
  have hne : ∀ x ∈ p.live, ¬ SameMountpoint host x.mountpoint m := by
    intro x hx hsame
    have hmounted := isMountPoint_iff.mpr ⟨x, hx, hsame⟩
    rw [hnew] at hmounted
    cases hmounted
  have hmp : ∀ x ∈ p.live, x.mountpoint ≠ m := by
    rintro x hx rfl
    exact hne x hx rfl
  have hcases : ∀ {x}, x ∈ p.live ++ [⟨m, chosenCacheDir host m cacheDir, cacheDir.isSome⟩] →
      x ∈ p.live ∨ x = ⟨m, chosenCacheDir host m cacheDir, cacheDir.isSome⟩ := by
    intro x hx
    simpa using hx
  have hapart : ∀ x ∈ p.live, x.chosen = true ∨ cacheDir.isSome = true →
      (resolve host.cwd (chosenCacheDir host m cacheDir)).Apart
        (resolve host.cwd x.cacheDir) := by
    intro x hx hchosen
    cases cacheDir with
    | none =>
      refine h.apart_default hx hdir.1 (fun hdefault ↦ ?_)
      simp [hdefault] at hchosen
    | some dir => exact hdir.2 x hx (hmp x hx)
  refine ⟨?_, ?_, ?_, ?_, ?_, ?_, ?_⟩
  · intro x hx
    rcases hcases hx with hold | rfl
    · exact h.map x hold
    · exact hmap
  · intro x hx y hy hsame
    rcases hcases hx with hold | rfl <;> rcases hcases hy with hold' | rfl
    · exact h.one x hold y hold' hsame
    · exact absurd hsame (hne x hold)
    · exact absurd hsame.symm (hne y hold')
    · rfl
  · intro x hx hdefault
    rcases hcases hx with hold | rfl
    · exact h.default x hold hdefault
    · cases cacheDir with
      | none => exact ⟨rfl, hdir.1⟩
      | some dir => cases hdefault
  · intro x hx y hy hdefault hdefault' hdiff
    rcases hcases hx with hold | rfl <;> rcases hcases hy with hold' | rfl
    · exact h.slugs x hold y hold' hdefault hdefault' hdiff
    · cases cacheDir with
      | none => exact hdir.2 x hold hdefault hdiff
      | some dir => cases hdefault'
    · cases cacheDir with
      | none => exact (hdir.2 y hold' hdefault' hdiff.symm).symm
      | some dir => cases hdefault
    · exact absurd rfl hdiff
  · intro x hx hchosen
    rcases hcases hx with hold | rfl
    · exact h.root x hold hchosen
    · cases cacheDir with
      | none => cases hchosen
      | some dir => exact hdir.1
  · intro x hx y hy hchosen hdiff
    rcases hcases hx with hold | rfl <;> rcases hcases hy with hold' | rfl
    · exact h.chosen x hold y hold' hchosen hdiff
    · exact (hapart x hold (.inl hchosen)).symm
    · exact hapart y hold' (.inr hchosen)
    · exact absurd rfl hdiff
  · intro m' hm'
    cases hm'
    exact ⟨_, List.mem_append_right _ List.mem_cons_self, rfl⟩

/-- One call. -/
theorem Registered.step {l : MountLabel} (hguard : KeepsApart host p l)
    (hstep : mountStep host l p = some p') : Registered host p' := by
  cases l with
  | mountInternal m cacheDir mounts =>
    cases hstep
    obtain ⟨hsame, hown⟩ := hguard
    have hregistered := h.register hsame
    simp only [mountInternal]
    split
    · exact hregistered
    · next hcond =>
      have hnew : isMountPoint host p m = false := by
        rw [Bool.or_eq_true, not_or] at hcond
        simpa [isMountPoint] using hcond.1
      -- The parked session goes first, then the new mount comes.
      have hrestricted := hregistered.restrict
        (fun x hx ↦ (List.mem_filter.mp hx).1 :
          ∀ x ∈ p.live.filter (fun x ↦ p.session ≠ some x.mountpoint), x ∈ p.live)
      refine hrestricted.mounted ?_ (by simp) ?_
      · rw [← Bool.not_eq_true, isMountPoint_iff]
        rintro ⟨x, hx, hmounted⟩
        have := isMountPoint_iff.mpr ⟨x, (List.mem_filter.mp hx).1, hmounted⟩
        rw [hnew] at this
        cases this
      · cases cacheDir with
        | none | some dir => exact ⟨hown.1, fun x hx ↦ hown.2 x (List.mem_filter.mp hx).1⟩
  | takeSession =>
    cases hstep
    exact h.restrict (fun x hx ↦ hx)
  | unmountInternal m env =>
    cases hstep
    have hfallback : Registered host { p with
        live := if env.unmounts then p.live.filter (fun x ↦ ¬ SameMountpoint host x.mountpoint m)
          else p.live
        session := none } := by
      refine h.restrict (fun x hx ↦ ?_)
      split at hx
      · exact (List.mem_filter.mp hx).1
      · exact hx
    simp only [unmountInternal]
    split
    · exact hfallback
    · split
      · exact h.restrict (fun x hx ↦ (List.mem_filter.mp hx).1)
      · exact hfallback

theorem Registered.isolated : Isolated host p := by
  intro x hx y hy hdiff hdefault hdefault' heq
  have hne : x.mountpoint ≠ y.mountpoint := fun hmp ↦ hdiff (congrArg host.canonicalize hmp)
  obtain ⟨hdir, hname⟩ := h.default x hx hdefault
  obtain ⟨hdir', hname'⟩ := h.default y hy hdefault'
  rw [hdir, hdir', resolve_cacheDirForMount hname, resolve_cacheDirForMount hname'] at heq
  exact h.slugs x hx y hy hdefault hdefault' hne (by simpa using heq)

theorem Registered.removes_own {env : UnmountEnv} (hown : OwnUnmount host p m env) :
    RemovesOwn host p m (unmountInternal host p m env).2 := by
  obtain ⟨hspelling, ⟨hname, hslug⟩, hsession, hchosen⟩ := hown
  have hother : ∀ x ∈ p.live, ¬ SameMountpoint host x.mountpoint m → x.mountpoint ≠ m := by
    rintro x hx hdiff rfl
    exact hdiff rfl
  -- The default directory is the right one unless the directory was chosen.
  have hdefault : (∀ x ∈ p.live, x.mountpoint = m → x.chosen = false) →
      RemovesOwn host p m (cacheDirForMount host m) := by
    intro hnot
    constructor
    · intro x hx hsame
      have hmp := hspelling x hx hsame
      rw [(h.default x hx (hnot x hx hmp)).1, hmp]
    · intro x hx hdiff
      exact (h.apart_default hx hname
        (fun hdef ↦ hslug x hx hdef (hother x hx hdiff))).1
  simp only [unmountInternal]
  split
  · next hnone =>
    refine hdefault (fun x hx hmp ↦ ?_)
    by_contra hch
    rw [hnone] at hchosen
    exact absurd (hchosen x hx hmp (by simpa using hch)).1 (by simp)
  · next m' hparked =>
    obtain rfl := hsession m' hparked
    split
    · next hjoins =>
      obtain ⟨y, hy, rfl⟩ := h.session m' hparked
      rw [h.map y hy, Option.getD_some]
      constructor
      · intro x hx hsame
        rw [h.one x hx y hy hsame]
      · intro x hx hdiff
        have hne := hother x hx hdiff
        cases hych : y.chosen with
        | true => exact (h.chosen y hy x hx hych hne.symm).1
        | false =>
          rw [(h.default y hy hych).1]
          exact (h.apart_default hx hname (fun hdef ↦ hslug x hx hdef hne)).1
    · next hjoins =>
      refine hdefault (fun x hx hmp ↦ ?_)
      by_contra hch
      exact hjoins (hchosen x hx hmp (by simpa using hch)).2

end

theorem Registered.initial : Registered host .initial where
  map := by simp [Process.initial]
  one := by simp [Process.initial]
  default := by simp [Process.initial]
  slugs := by simp [Process.initial]
  root := by simp [Process.initial]
  chosen := by simp [Process.initial]
  session := by simp [Process.initial]

/-- Along such calls, default directories are never shared, and an unmount removes the directory
of its own mount and nothing of another one. -/
theorem cache_dirs_isolated_of_run {t : Process}
    (hrun : GuardedRun (mountStep host) (KeepsApart host) .initial t) :
    Isolated host t ∧
      ∀ m env, OwnUnmount host t m env →
        RemovesOwn host t m (unmountInternal host t m env).2 := by
  have hregistered := hrun.invariant (Registered host)
    (fun _ _ _ hs hguard hstep ↦ hs.step hguard hstep) .initial
  exact ⟨hregistered.isolated, fun m env hown ↦ hregistered.removes_own hown⟩

/-- A host without symbolic links. -/
def plainHost : Host := ⟨[], ['/', 't'], id⟩

/-- A mount with a default directory and one with a chosen one, which is unmounted while its
session is parked. -/
theorem cache_dirs_isolated_of_run_sample :
    ∃ t, GuardedRun (mountStep plainHost) (KeepsApart plainHost) .initial t ∧
      t.live.length = 2 ∧ Isolated plainHost t ∧
      RemovesOwn plainHost t ['/', 'b']
        (unmountInternal plainHost t ['/', 'b'] ⟨true, true⟩).2 := by
  obtain ⟨t, ht, hlive, hguard⟩ := exists_exec (mountStep plainHost)
    (fun t ↦ t.live.length = 2 ∧ OwnUnmount plainHost t ['/', 'b'] ⟨true, true⟩)
    [.mountInternal ['/', 'a'] none true, .takeSession,
      .mountInternal ['/', 'b'] (some ['/', 'c']) true] .initial (by decide)
  have hrun : GuardedRun (mountStep plainHost) (KeepsApart plainHost) .initial t :=
    guardedRun_of_exec ht (by decide)
  obtain ⟨hisolated, hremoves⟩ := cache_dirs_isolated_of_run hrun
  exact ⟨t, hrun, hlive, hisolated, hremoves _ _ hguard⟩

/-- Two mountpoints that make one name share a directory, and the unmount of one removes it; and a
chosen directory stays behind when the session is no longer parked. -/
theorem cache_dirs_collide :
    (∃ t, GuardedRun (mountStep plainHost) (fun _ _ ↦ True) .initial t ∧ ¬ Isolated plainHost t ∧
      ¬ RemovesOwn plainHost t ['/', 'a', '_', 'b']
        (unmountInternal plainHost t ['/', 'a', '_', 'b'] ⟨true, true⟩).2) ∧
    ∃ t, GuardedRun (mountStep plainHost) (fun _ _ ↦ True) .initial t ∧
      ¬ RemovesOwn plainHost t ['/', 'b']
        (unmountInternal plainHost t ['/', 'b'] ⟨true, true⟩).2 := by
  constructor
  · exact exists_guardedRun (mountStep plainHost) (fun _ _ ↦ True)
      (fun t ↦ ¬ Isolated plainHost t ∧ ¬ RemovesOwn plainHost t ['/', 'a', '_', 'b']
        (unmountInternal plainHost t ['/', 'a', '_', 'b'] ⟨true, true⟩).2)
      [.mountInternal ['/', 'a', '/', 'b'] none true, .takeSession,
        .mountInternal ['/', 'a', '_', 'b'] none true] .initial (by decide) (by decide)
  · exact exists_guardedRun (mountStep plainHost) (fun _ _ ↦ True)
      (fun t ↦ ¬ RemovesOwn plainHost t ['/', 'b']
        (unmountInternal plainHost t ['/', 'b'] ⟨true, true⟩).2)
      [.mountInternal ['/', 'b'] (some ['/', 'c']) true, .takeSession] .initial (by decide)
      (by decide)

end Mntrs.Mount

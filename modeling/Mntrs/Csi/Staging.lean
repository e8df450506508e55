import Mntrs.Model.Path
import Mntrs.Mount.CacheDirs

/-!
# Staging of volumes by the CSI plugin

`node_stage_volume` mounts a volume with a cache directory named after its storage URL,
`node_unstage_volume` unmounts it and removes the cache directory named after the volume id.
Models `src/csi/mntrs-csi/src/main.rs:38-49` (`encode_volume_id`), `1089-1114`
(`parse_volume_context`), `443-553` (`node_stage_volume`) and `555-625`
(`node_unstage_volume`). The directories on the host are given by their resolved names.
-/

namespace Mntrs.Csi

open Base Mount

/-- The texts of requests and options. -/
abbrev Text := List Char

/-- The gRPC codes the node service answers with. -/
inductive Code where
  | invalidArgument
  | alreadyExists
  | internal
  | deadlineExceeded
deriving DecidableEq, Repr

/-- A gRPC error. -/
structure Status where
  code : Code
  message : Text
deriving DecidableEq, Repr

/-- `encode_volume_id`. -/
def encodeVolumeId (storageUrl : Text) : Text :=
  storageUrl.flatMap (fun c ↦
    if c = ':' then ['_', '3', 'a'] else if c = '/' then ['_', '2', 'f']
    else if c = '_' then ['_', '5', 'f'] else [c])

/-- A `NodeStageVolumeRequest`. -/
structure StageRequest where
  volumeId : Text
  stagingTargetPath : Text
  volumeContext : Text → Option Text

/-- The keys of the volume context that are not mount options. -/
def contextKeys : List Text :=
  ["storage".toList, "storageUrl".toList, "storage-url".toList, "readOnly".toList,
    "prefix".toList, "path".toList]

/-- `parse_volume_context`: the storage URL, whether the volume is read-only, and the mount
options. -/
def parseVolumeContext (ctx : Text → Option Text) :
    Except Status (Text × Bool × (Text → Option Text)) :=
  match (ctx "storage".toList).or ((ctx "storageUrl".toList).or (ctx "storage-url".toList)) with
  | none => .error ⟨.invalidArgument, "volume context missing 'storage' key".toList⟩
  | some storage =>
    .ok (storage, ctx "readOnly".toList = some "true".toList,
      fun k ↦ if k ∈ contextKeys then none else ctx k)

/-- What becomes of the mount thread while `node_stage_volume` waits for the mountpoint. -/
inductive StageOutcome where
  | mounted
  | failed (error : Text)
  | exited
  | timedOut
deriving DecidableEq, Repr

/-- A volume that was staged, with the cache directory its mount works in. -/
structure Staged where
  volumeId : Text
  cacheDir : Dir
deriving DecidableEq, Repr

/-- The mounts of the plugin's process, the directories that exist on the host, the value of
`MNTRS_CACHE_DIR`, and the volumes that were staged. -/
structure Node where
  process : Process
  dirs : List Dir
  cacheBase : Option Text
  staged : List Staged

section

variable (host : Host)

/-- The `cache-dir` option of a volume's mount. -/
def stageCacheDir (base : Option Text) (storage : Text) (opts : Text → Option Text) :
    Option Text :=
  match base with
  | some base => some (base ++ '/' :: encodeVolumeId storage)
  | none => opts "cache-dir".toList

/-- `create_dir_all`. -/
def createDirAll (dirs : List Dir) (d : Dir) : List Dir := dirs ++ d.inits

/-- `remove_dir_all`. -/
def removeDirAll (dirs : List Dir) (d : Dir) : List Dir := dirs.filter (fun e ↦ ¬ d <+: e)

/-- `node_stage_volume`. -/
def nodeStageVolume (n : Node) (req : StageRequest) (outcome : StageOutcome) :
    Except Status Unit × Node :=
  if req.volumeId = [] then
    (.error ⟨.invalidArgument, "volume_id must not be empty".toList⟩, n)
  else if req.stagingTargetPath = [] then
    (.error ⟨.invalidArgument, "staging_target_path must not be empty".toList⟩, n)
  else if isMountPoint host n.process req.stagingTargetPath then (.ok (), n)
  else
    match parseVolumeContext req.volumeContext with
    | .error e => (.error e, n)
    | .ok (storage, _, opts) =>
      let cacheDir := stageCacheDir n.cacheBase storage opts
      let dir := resolve host.cwd (chosenCacheDir host req.stagingTargetPath cacheDir)
      let n' := { n with
        process :=
          mountInternal host n.process req.stagingTargetPath cacheDir (outcome = .mounted)
        dirs := createDirAll
          (createDirAll n.dirs (resolve host.cwd req.stagingTargetPath)) dir }
      match outcome with
      | .mounted => (.ok (), { n' with staged := n'.staged ++ [⟨req.volumeId, dir⟩] })
      | .failed error => (.error ⟨.internal, "mount setup failed: ".toList ++ error⟩, n')
      | .exited =>
        (.error ⟨.internal, "mount thread exited unexpectedly (panic?)".toList⟩, n')
      | .timedOut =>
        (.error ⟨.deadlineExceeded, "mountpoint ".toList ++ req.stagingTargetPath ++
          " not ready after 60s".toList⟩, n')

/-- A `NodeUnstageVolumeRequest`. -/
structure UnstageRequest where
  volumeId : Text
  stagingTargetPath : Text
deriving DecidableEq, Repr

/-- The part of `node_unstage_volume` before its own cleanup: a mounted staging path is
unmounted, and the staging directory goes if it is empty. -/
def unstageUnmount (n : Node) (staging : Text) (env : UnmountEnv) : Node :=
  let n :=
    if isMountPoint host n.process staging then
      let (process, dir) := unmountInternal host n.process staging env
      { n with process := process, dirs := removeDirAll n.dirs (resolve host.cwd dir) }
    else n
  let d := resolve host.cwd staging
  if n.dirs.any (fun e ↦ d <+: e ∧ e ≠ d) then n
  else { n with dirs := n.dirs.filter (· ≠ d) }

/-- `node_unstage_volume`. -/
def nodeUnstageVolume (n : Node) (req : UnstageRequest) (env : UnmountEnv) :
    Except Status Unit × Node :=
  if req.stagingTargetPath = [] then
    (.error ⟨.invalidArgument, "staging_target_path must not be empty".toList⟩, n)
  else
    let n := unstageUnmount host n req.stagingTargetPath env
    match n.cacheBase with
    | none => (.ok (), n)
    | some base =>
      (.ok (), { n with
        dirs := removeDirAll n.dirs (resolve host.cwd (base ++ '/' :: req.volumeId)) })

/-- Stage and unstage requests. Between them a mount thread comes back for its session. -/
inductive NodeLabel where
  | stage (req : StageRequest) (outcome : StageOutcome)
  | takeSession
  | unstage (req : UnstageRequest) (env : UnmountEnv)

def nodeStep (l : NodeLabel) (n : Node) : Option Node :=
  match l with
  | .stage req outcome => some (nodeStageVolume host n req outcome).2
  | .takeSession => some { n with process := { n.process with session := none } }
  | .unstage req env => some (nodeUnstageVolume host n req env).2

/-- The directory `MNTRS_CACHE_DIR` names. -/
def baseDir (base : Text) : Dir := resolve host.cwd (base ++ ['/'])

/-- An unstage request removed the cache directory its volume was staged with, and beside the
staging directory nothing outside the cache root, not the root itself, and nothing of another
volume. -/
structure Confined (base : Text) (n n' : Node) (req : UnstageRequest) : Prop where
  own : ∀ v ∈ n.staged, v.volumeId = req.volumeId → ∀ e ∈ n'.dirs, ¬ v.cacheDir <+: e
  inside : ∀ e ∈ n.dirs, e ∉ n'.dirs → e ≠ resolve host.cwd req.stagingTargetPath →
    baseDir host base <+: e ∧ e ≠ baseDir host base
  others : ∀ v ∈ n.staged, v.volumeId ≠ req.volumeId → ∀ e ∈ n.dirs, e ∉ n'.dirs →
    e ≠ resolve host.cwd req.stagingTargetPath → ¬ v.cacheDir <+: e

set_option synthInstance.maxSize 256 in
instance (base : Text) (n n' : Node) (req : UnstageRequest) :
    Decidable (Confined host base n n' req) :=
  decidable_of_iff
    ((∀ v ∈ n.staged, v.volumeId = req.volumeId → ∀ e ∈ n'.dirs, ¬ v.cacheDir <+: e) ∧
      (∀ e ∈ n.dirs, e ∉ n'.dirs → e ≠ resolve host.cwd req.stagingTargetPath →
        baseDir host base <+: e ∧ e ≠ baseDir host base) ∧
      ∀ v ∈ n.staged, v.volumeId ≠ req.volumeId → ∀ e ∈ n.dirs, e ∉ n'.dirs →
        e ≠ resolve host.cwd req.stagingTargetPath → ¬ v.cacheDir <+: e)
    ⟨fun ⟨own, inside, others⟩ ↦ ⟨own, inside, others⟩, fun h ↦ ⟨h.own, h.inside, h.others⟩⟩

/-- Volumes are staged under their encoded storage URLs, which name entries of a directory. -/
def EncodedIds (_ : Node) : NodeLabel → Prop
  | .stage req _ =>
    ∀ r ∈ (parseVolumeContext req.volumeContext).toOption,
      req.volumeId = encodeVolumeId r.1 ∧ ProperName req.volumeId
  | _ => True

/-- The id names an entry of a directory, and what `unmount_internal` cleans up after the mount has
taken its session back does not exist. -/
def CleanUnstage (n : Node) (req : UnstageRequest) : Prop :=
  ProperName req.volumeId ∧ n.process.session = none ∧
    ∀ e ∈ n.dirs, ¬ resolve host.cwd (cacheDirForMount host req.stagingTargetPath) <+: e

instance (n : Node) : ∀ l, Decidable (EncodedIds n l)
  | .stage req _ =>
    inferInstanceAs (Decidable (∀ r ∈ (parseVolumeContext req.volumeContext).toOption, _))
  | .takeSession | .unstage .. => isTrue trivial

instance (n : Node) (req : UnstageRequest) : Decidable (CleanUnstage host n req) :=
  inferInstanceAs (Decidable (_ ∧ _ ∧ ∀ e ∈ n.dirs, _))

end

variable {host : Host} {n n' : Node} {base : Text}

/-- Every volume was staged with the directory its id names. -/
structure StagedById (host : Host) (base : Text) (n : Node) : Prop where
  cacheBase : n.cacheBase = some base
  staged : ∀ v ∈ n.staged, v.cacheDir = baseDir host base ++ [v.volumeId]

theorem resolve_volumeId {id : Text} (h : ProperName id) :
    resolve host.cwd (base ++ '/' :: id) = baseDir host base ++ [id] := by
  rw [resolve_append_name _ _ h.slash, h.enter]
  rfl

theorem StagedById.stage {req : StageRequest} {outcome : StageOutcome} (h : StagedById host base n)
    (hguard : EncodedIds n (.stage req outcome)) :
    StagedById host base (nodeStageVolume host n req outcome).2 := by
  simp only [nodeStageVolume]
  split
  · exact h
  split
  · exact h
  split
  · exact h
  split
  · exact h
  · next storage readOnly opts hparse =>
    obtain ⟨hid, hname⟩ := hguard (storage, readOnly, opts) (by rw [hparse]; rfl)
    cases outcome with
    | mounted =>
      refine ⟨h.cacheBase, fun v hv ↦ ?_⟩
      rcases List.mem_append.mp hv with hold | hnew
      · exact h.staged v hold
      · cases List.mem_singleton.mp hnew
        rw [h.cacheBase, ← resolve_volumeId hname, hid]
        rfl
    | failed error | exited | timedOut => exact ⟨h.cacheBase, h.staged⟩

/-- The first part of an unstage removes at most the default cache directory of the staging path,
if no session is parked, and the staging directory. -/
theorem unstageUnmount_frame (host : Host) (n : Node) (staging : Text) (env : UnmountEnv) :
    ∃ process dirs,
      unstageUnmount host n staging env = { n with process := process, dirs := dirs } ∧
      (∀ e ∈ dirs, e ∈ n.dirs) ∧
      (n.process.session = none → ∀ e ∈ n.dirs, e ∉ dirs → e ≠ resolve host.cwd staging →
        resolve host.cwd (cacheDirForMount host staging) <+: e) := by
  -- Removing the empty staging directory touches no other one.
  have hrmdir : ∀ n' : Node, ∃ dirs,
      (if n'.dirs.any (fun e ↦ resolve host.cwd staging <+: e ∧ e ≠ resolve host.cwd staging)
        then n'
        else { n' with dirs := n'.dirs.filter (· ≠ resolve host.cwd staging) }) =
        { n' with dirs := dirs } ∧
      (∀ e ∈ dirs, e ∈ n'.dirs) ∧ ∀ e ∈ n'.dirs, e ≠ resolve host.cwd staging → e ∈ dirs := by
    intro n'
    split
    · exact ⟨n'.dirs, rfl, fun _ he ↦ he, fun _ he _ ↦ he⟩
    · exact ⟨_, rfl, fun e he ↦ (List.mem_filter.mp he).1,
        fun e he hne ↦ List.mem_filter.mpr ⟨he, by simpa using hne⟩⟩
  simp only [unstageUnmount]
  by_cases hmounted : isMountPoint host n.process staging = true
  · obtain ⟨dirs, heq, hsub, hkept⟩ := hrmdir { n with
      process := (unmountInternal host n.process staging env).1
      dirs := removeDirAll n.dirs
        (resolve host.cwd (unmountInternal host n.process staging env).2) }
    rw [if_pos hmounted]
    refine ⟨_, dirs, heq, fun e he ↦ (List.mem_filter.mp (hsub e he)).1, ?_⟩
    intro hsession e he hgone hne
    by_contra hnot
    refine hgone (hkept e (List.mem_filter.mpr ⟨he, ?_⟩) hne)
    simpa [unmountInternal, hsession] using hnot
  · obtain ⟨dirs, heq, hsub, hkept⟩ := hrmdir n
    rw [if_neg hmounted]
    exact ⟨_, dirs, heq, hsub, fun _ e he hgone hne ↦ absurd (hkept e he hne) hgone⟩

variable {req : UnstageRequest} {env : UnmountEnv}

section

variable (h : StagedById host base n)
include h

/-- An unstage request removes what its id names, and no more than that beside the default cache
directory and the staging directory. -/
theorem nodeUnstageVolume_frame (hok : (nodeUnstageVolume host n req env).1 = .ok ()) :
    ∃ process dirs,
      (nodeUnstageVolume host n req env).2 = { n with process := process, dirs := dirs } ∧
      (∀ e ∈ dirs, ¬ resolve host.cwd (base ++ '/' :: req.volumeId) <+: e) ∧
      (n.process.session = none → ∀ e ∈ n.dirs, e ∉ dirs →
        e ≠ resolve host.cwd req.stagingTargetPath →
        resolve host.cwd (base ++ '/' :: req.volumeId) <+: e ∨
          resolve host.cwd (cacheDirForMount host req.stagingTargetPath) <+: e) := by
  obtain ⟨process, dirs, heq, -, hgone⟩ :=
    unstageUnmount_frame host n req.stagingTargetPath env
  simp only [nodeUnstageVolume] at hok ⊢
  split at hok
  · cases hok
  · next hstaging =>
    rw [if_neg hstaging, heq]
    simp only [h.cacheBase]
    refine ⟨process, _, rfl, fun e he ↦ ?_, fun hsession e he hremoved hne ↦ ?_⟩
    · simpa using (List.mem_filter.mp he).2
    · by_cases hin : e ∈ dirs
      · left
        by_contra hnot
        exact hremoved (List.mem_filter.mpr ⟨hin, by simpa using hnot⟩)
      · exact .inr (hgone hsession e he hin hne)

theorem StagedById.unstage : StagedById host base (nodeUnstageVolume host n req env).2 := by
  obtain ⟨process, dirs, heq, -, -⟩ := unstageUnmount_frame host n req.stagingTargetPath env
  simp only [nodeUnstageVolume]
  split
  · exact h
  · rw [heq]
    simp only [h.cacheBase]
    exact ⟨rfl, h.staged⟩

theorem StagedById.step {l : NodeLabel} (hguard : EncodedIds n l)
    (hstep : nodeStep host l n = some n') : StagedById host base n' := by
  cases l with
  | stage req outcome =>
    cases hstep
    exact h.stage hguard
  | takeSession =>
    cases hstep
    exact ⟨h.cacheBase, h.staged⟩
  | unstage req env =>
    cases hstep
    exact h.unstage

theorem StagedById.confined (hclean : CleanUnstage host n req)
    (hok : (nodeUnstageVolume host n req env).1 = .ok ()) :
    Confined host base n (nodeUnstageVolume host n req env).2 req := by
  obtain ⟨hname, hsession, hdefault⟩ := hclean
  obtain ⟨process, dirs, heq, hcleared, hgone⟩ := nodeUnstageVolume_frame h hok
  rw [resolve_volumeId hname] at hcleared hgone
  have hremoved : ∀ e ∈ n.dirs, e ∉ dirs → e ≠ resolve host.cwd req.stagingTargetPath →
      baseDir host base ++ [req.volumeId] <+: e := fun e he hnot hne ↦
    (hgone hsession e he hnot hne).resolve_right (hdefault e he)
  rw [heq]
  constructor
  · intro v hv hid e he
    rw [h.staged v hv, hid]
    exact hcleared e he
  · intro e he hnot hne
    have hbelow := hremoved e he hnot hne
    refine ⟨(List.prefix_append _ _).trans hbelow, ?_⟩
    rintro rfl
    have hlen := hbelow.length_le
    rw [List.length_append, List.length_singleton] at hlen
    omega
  · intro v hv hid e he hnot hne hbelow
    rw [h.staged v hv] at hbelow
    have hsame := List.prefix_of_prefix_length_le hbelow (hremoved e he hnot hne) (by simp)
    exact (apart_of_ne hid).1 hsame

end

/-- If volumes are staged under their encoded storage URLs, unstaging cleans up after the volume it
names and nothing else. -/
theorem unstage_confined_of_run (hbase : n.cacheBase = some base) (hnone : n.staged = [])
    (hrun : GuardedRun (nodeStep host) EncodedIds n n') :
    ∀ req env, CleanUnstage host n' req →
      (nodeUnstageVolume host n' req env).1 = .ok () →
      Confined host base n' (nodeUnstageVolume host n' req env).2 req := by
  have hinv := hrun.invariant (StagedById host base)
    (fun _ _ _ hs hguard hstep ↦ hs.step hguard hstep) ⟨hbase, by simp [hnone]⟩
  exact fun req env hclean hok ↦ hinv.confined hclean hok

/-- A node with the cache root `/c` and no volume. -/
def freshNode : Node := ⟨.initial, [[], [['c']]], some ['/', 'c'], []⟩

/-- A volume with the given id on the storage `s:b`, staged at `/v`. -/
def stageAt (volumeId : Text) : StageRequest where
  volumeId := volumeId
  stagingTargetPath := ['/', 'v']
  volumeContext := fun k ↦ if k = "storage".toList then some ['s', ':', 'b'] else none

/-- A volume under its encoded id is staged and unstaged. -/
theorem unstage_confined_of_run_sample :
    ∃ t, GuardedRun (nodeStep plainHost) EncodedIds freshNode t ∧
      t.staged.map Staged.volumeId = [encodeVolumeId ['s', ':', 'b']] ∧
      Confined plainHost ['/', 'c'] t
        (nodeUnstageVolume plainHost t ⟨encodeVolumeId ['s', ':', 'b'], ['/', 'v']⟩ ⟨true, true⟩).2
        ⟨encodeVolumeId ['s', ':', 'b'], ['/', 'v']⟩ := by
  obtain ⟨t, ht, hstaged, hguard, hok⟩ := exists_exec (nodeStep plainHost)
    (fun t ↦ t.staged.map Staged.volumeId = [encodeVolumeId ['s', ':', 'b']] ∧
      CleanUnstage plainHost t ⟨encodeVolumeId ['s', ':', 'b'], ['/', 'v']⟩ ∧
      (nodeUnstageVolume plainHost t
        ⟨encodeVolumeId ['s', ':', 'b'], ['/', 'v']⟩ ⟨true, true⟩).1 = .ok ())
    [.stage (stageAt (encodeVolumeId ['s', ':', 'b'])) .mounted, .takeSession] freshNode
    (by decide)
  have hrun : GuardedRun (nodeStep plainHost) EncodedIds freshNode t :=
    guardedRun_of_exec ht (by decide)
  exact ⟨t, hrun, hstaged, unstage_confined_of_run rfl rfl hrun _ _ hguard hok⟩

/-- A volume under an id of its own leaves its cache directory behind, and an empty id takes the
cache root with every volume's directory. -/
theorem unstage_removes_by_raw_id :
    ∃ t, GuardedRun (nodeStep plainHost) (fun _ _ ↦ True) freshNode t ∧
      (nodeStageVolume plainHost freshNode (stageAt ['p', 'v']) .mounted).1 = .ok () ∧
      (∃ v ∈ t.staged, v.volumeId = ['p', 'v'] ∧ v.cacheDir ∈
        (nodeUnstageVolume plainHost t ⟨['p', 'v'], ['/', 'v']⟩ ⟨true, true⟩).2.dirs) ∧
      ¬ Confined plainHost ['/', 'c'] t
        (nodeUnstageVolume plainHost t ⟨['p', 'v'], ['/', 'v']⟩ ⟨true, true⟩).2
        ⟨['p', 'v'], ['/', 'v']⟩ ∧
      baseDir plainHost ['/', 'c'] ∈ t.dirs ∧
      baseDir plainHost ['/', 'c'] ∉
        (nodeUnstageVolume plainHost t ⟨[], ['/', 'v']⟩ ⟨true, true⟩).2.dirs := by
  obtain ⟨t, ht, hP⟩ := exists_exec (nodeStep plainHost)
    (fun t ↦ (nodeStageVolume plainHost freshNode (stageAt ['p', 'v']) .mounted).1 = .ok () ∧
      (∃ v ∈ t.staged, v.volumeId = ['p', 'v'] ∧ v.cacheDir ∈
        (nodeUnstageVolume plainHost t ⟨['p', 'v'], ['/', 'v']⟩ ⟨true, true⟩).2.dirs) ∧
      ¬ Confined plainHost ['/', 'c'] t
        (nodeUnstageVolume plainHost t ⟨['p', 'v'], ['/', 'v']⟩ ⟨true, true⟩).2
        ⟨['p', 'v'], ['/', 'v']⟩ ∧
      baseDir plainHost ['/', 'c'] ∈ t.dirs ∧
      baseDir plainHost ['/', 'c'] ∉
        (nodeUnstageVolume plainHost t ⟨[], ['/', 'v']⟩ ⟨true, true⟩).2.dirs)
    [.stage (stageAt ['p', 'v']) .mounted, .takeSession] freshNode (by decide)
  exact ⟨t, guardedRun_of_exec ht (admits_of_forall (fun _ _ ↦ trivial) _ _), hP⟩

end Mntrs.Csi

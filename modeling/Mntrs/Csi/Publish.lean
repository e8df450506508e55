import Mntrs.Csi.Staging

/-!
# Publishing of volumes by the CSI plugin

`node_publish_volume` bind-mounts the staging path of a volume on a target path,
`node_unpublish_volume` takes the bind mount away and removes the target directory. Models
`src/csi/mntrs-csi/src/main.rs:627-775` and `777-825` as functions of the outcomes of the commands
they run, with the mount table and the files of the host as far as these commands change them.
-/

namespace Mntrs.Csi

/-- What a path shows: a mounted volume, or a directory of the host. -/
inductive Content where
  | volume (id : Nat)
  | hostDir (path : Text)
deriving DecidableEq, Repr

/-- One mount. A bind mount knows the path it was made from; `owner` is the volume id it was
published for. -/
structure MountEntry where
  content : Content
  readOnly : Bool
  bindOf : Option Text
  owner : Option Text
deriving DecidableEq, Repr

/-- `MountState`: where a volume is published. -/
structure MountState where
  mountpoint : Text
  readOnly : Bool
deriving DecidableEq, Repr

/-- The host and the map of the node service. The mounts at a path are stacked, the visible one
first. -/
structure World where
  stack : Text → List MountEntry
  dirExists : Text → Bool
  files : Content → List Text
  mounts : Text → Option MountState

/-- How a command ends: it could not be run, it failed, or it succeeded. -/
inductive Outcome where
  | notRun (error : Text)
  | failed (stderr : Text)
  | ok
deriving DecidableEq, Repr

/-- The access modes that ask for a read-only mount: `SINGLE_NODE_READER_ONLY`,
`MULTI_NODE_READER_ONLY` and `MULTI_NODE_SINGLE_WRITER`. -/
def accessModeIsReadOnly (mode : Int) : Bool := mode = 2 || mode = 3 || mode = 4

/-- A `NodePublishVolumeRequest`; the capability is the access mode it may name. -/
structure PublishRequest where
  volumeId : Text
  targetPath : Text
  stagingTargetPath : Text
  volumeCapability : Option (Option Int)
deriving DecidableEq, Repr

/-- Whether the request asks for a read-only mount. -/
def PublishRequest.readOnly (req : PublishRequest) : Bool :=
  ((req.volumeCapability.bind id).map accessModeIsReadOnly).getD false

/-- A `NodeUnpublishVolumeRequest`. -/
structure UnpublishRequest where
  volumeId : Text
  targetPath : Text
deriving DecidableEq, Repr

/-! ### The commands -/

/-- `is_mountpoint`. -/
def isMountpoint (w : World) (path : Text) : Bool := !(w.stack path).isEmpty

/-- What is visible at a path. -/
def visible (w : World) (path : Text) : Content :=
  match w.stack path with
  | [] => .hostDir path
  | m :: _ => m.content

/-- Whether what is visible at a path can be written to. -/
def writable (w : World) (path : Text) : Bool :=
  match w.stack path with
  | [] => true
  | m :: _ => !m.readOnly

/-- `mount --bind`: the new mount shows what the source shows, with the source's flags. -/
def bindMount (w : World) (owner source target : Text) : World :=
  { w with
    stack := Function.update w.stack target
      (⟨visible w source, !writable w source, some source, some owner⟩ :: w.stack target) }

/-- `mount -o remount,bind,ro`. -/
def remountReadOnly (w : World) (target : Text) : World :=
  { w with
    stack := Function.update w.stack target
      (match w.stack target with
      | [] => []
      | m :: rest => { m with readOnly := true } :: rest) }

/-- `umount`, also lazy: takes the visible mount away. Where nothing is mounted it fails. -/
def umount (w : World) (target : Text) (outcome : Outcome) : Outcome × World :=
  match outcome with
  | .ok =>
    match w.stack target with
    | [] => (.failed "not mounted".toList, w)
    | _ :: rest => (.ok, { w with stack := Function.update w.stack target rest })
  | .failed stderr => (.failed stderr, w)
  | .notRun e => (.notRun e, w)

/-- `remove_dir_all` on a target path: file after file until one cannot be deleted, then the
directory, which stays if something is mounted on it. -/
def removeTarget (w : World) (target : Text) (deletes : Text → Bool) : World :=
  if writable w target then
    let left := (w.files (visible w target)).dropWhile deletes
    { w with
      files := Function.update w.files (visible w target) left
      dirExists := if left = [] ∧ ¬ isMountpoint w target then
          Function.update w.dirExists target false
        else w.dirExists }
  else w

/-! ### The requests -/

/-- The checks of a publish request before anything else. -/
def checkPublish (req : PublishRequest) : Except Status Unit :=
  if req.volumeId = [] then
    .error ⟨.invalidArgument, "volume_id must not be empty".toList⟩
  else if req.targetPath = [] then
    .error ⟨.invalidArgument, "target_path must not be empty".toList⟩
  else if req.stagingTargetPath = [] then
    .error ⟨.invalidArgument, "staging_target_path must not be empty".toList⟩
  else if req.volumeCapability = none then
    .error ⟨.invalidArgument, "volume_capability must be provided".toList⟩
  else .ok ()

/-- The outcomes of the commands a publish request runs, of the creation of the target directory,
and which files can be deleted. -/
structure PublishEnv where
  createDir : Except Text Unit
  bind : Outcome
  remount : Outcome
  umount : Outcome
  deletes : Text → Bool

/-- A volume is entered in the map. -/
def recordMount (w : World) (volumeId target : Text) (readOnly : Bool) : World :=
  { w with mounts := Function.update w.mounts volumeId (some ⟨target, readOnly⟩) }

/-- A volume that is in the map is not published again. -/
def publishedBefore (w : World) (req : PublishRequest) : Option (Except Status Unit) :=
  match w.mounts req.volumeId with
  | none => none
  | some prev =>
    if prev.mountpoint ≠ req.targetPath then
      some (.error ⟨.alreadyExists, "volume ".toList ++ req.volumeId ++
        " already published to ".toList ++ prev.mountpoint ++ " (requested ".toList ++
        req.targetPath ++ ")".toList⟩)
    else some (.ok ())

/-- The target directory is made, if the staging path is mounted. -/
def prepareTarget (w : World) (req : PublishRequest) (env : PublishEnv) : Except Status World :=
  if isMountpoint w req.stagingTargetPath then
    match env.createDir with
    | .ok () => .ok { w with dirExists := Function.update w.dirExists req.targetPath true }
    | .error e => .error ⟨.internal, "create_dir_all ".toList ++ req.targetPath ++ ": ".toList ++ e⟩
  else
    .error ⟨.internal, "staging path not mounted: ".toList ++ req.stagingTargetPath⟩

/-- The bind mount. -/
def bindTarget (w : World) (req : PublishRequest) (env : PublishEnv) : Except Status World :=
  match env.bind with
  | .notRun e => .error ⟨.internal, "mount --bind failed: ".toList ++ e⟩
  | .failed stderr => .error ⟨.internal, "mount --bind: ".toList ++ stderr⟩
  | .ok => .ok (bindMount w req.volumeId req.stagingTargetPath req.targetPath)

/-- The answer when the remount has failed. -/
def remountError (req : PublishRequest) (stderr : Text) : Status :=
  ⟨.internal, "mount -o remount,bind,ro ".toList ++ req.targetPath ++ ": ".toList ++ stderr⟩

/-- From the bind mount on: it is made read-only if that was asked for, and torn down if that
fails. -/
def finishPublish (w : World) (req : PublishRequest) (env : PublishEnv) :
    Except Status Unit × World :=
  if req.readOnly then
    match env.remount with
    | .notRun e => (.error ⟨.internal, "mount -o remount,bind,ro failed: ".toList ++ e⟩, w)
    | .failed stderr =>
      (.error (remountError req stderr),
        removeTarget (umount w req.targetPath env.umount).2 req.targetPath env.deletes)
    | .ok =>
      (.ok (), recordMount (remountReadOnly w req.targetPath) req.volumeId req.targetPath true)
  else (.ok (), recordMount w req.volumeId req.targetPath false)

/-- `node_publish_volume`. -/
def nodePublishVolume (w : World) (req : PublishRequest) (env : PublishEnv) :
    Except Status Unit × World :=
  match checkPublish req with
  | .error e => (.error e, w)
  | .ok () =>
    if isMountpoint w req.targetPath then
      (.ok (), recordMount w req.volumeId req.targetPath false)
    else
      match publishedBefore w req with
      | some answer => (answer, w)
      | none =>
        match prepareTarget w req env with
        | .error e => (.error e, w)
        | .ok w =>
          match bindTarget w req env with
          | .error e => (.error e, w)
          | .ok w => finishPublish w req env

/-- The outcomes of the commands an unpublish request runs, and which files can be deleted. -/
structure UnpublishEnv where
  umount : Outcome
  lazyUmount : Outcome
  deletes : Text → Bool

/-- The checks of an unpublish request. -/
def checkUnpublish (req : UnpublishRequest) : Except Status Unit :=
  if req.volumeId = [] then
    .error ⟨.invalidArgument, "volume_id must not be empty".toList⟩
  else if req.targetPath = [] then
    .error ⟨.invalidArgument, "target_path must not be empty".toList⟩
  else .ok ()

/-- The two attempts to unmount the target. The second is made only if the first was run and
failed. -/
def umountTarget (w : World) (target : Text) (env : UnpublishEnv) : World :=
  match umount w target env.umount with
  | (.failed _, w) => (umount w target env.lazyUmount).2
  | (_, w) => w

/-- `node_unpublish_volume`. -/
def nodeUnpublishVolume (w : World) (req : UnpublishRequest) (env : UnpublishEnv) :
    Except Status Unit × World :=
  match checkUnpublish req with
  | .error e => (.error e, w)
  | .ok () =>
    let w := removeTarget (umountTarget w req.targetPath env) req.targetPath env.deletes
    (.ok (), { w with mounts := Function.update w.mounts req.volumeId none })

/-! ### What is deleted -/

/-- No file is gone, of a volume or of the host. -/
def KeepsFiles (w w' : World) : Prop := ∀ c, w'.files c = w.files c

/-- No file is gone, and no directory but the target. -/
def KeepsData (w w' : World) (target : Text) : Prop :=
  KeepsFiles w w' ∧ ∀ path, path ≠ target → w'.dirExists path = w.dirExists path

/-- Where `stack` is what is mounted at the target, the first file visible there can be deleted. -/
def Exposed (w : World) (target : Text) (stack : List MountEntry) (deletes : Text → Bool) : Prop :=
  match stack with
  | [] => ∃ f ∈ (w.files (.hostDir target)).head?, deletes f = true
  | m :: _ => m.readOnly = false ∧ ∃ f ∈ (w.files m.content).head?, deletes f = true

private theorem dropWhile_eq_self_iff_head (l : List Text) (deletes : Text → Bool) :
    l.dropWhile deletes = l ↔ ¬ ∃ f ∈ l.head?, deletes f = true := by
  cases l with
  | nil => simp
  | cons f l =>
    cases hf : deletes f with
    | false => simp [hf]
    | true =>
      have hlen : (l.dropWhile deletes).length < (f :: l).length :=
        Nat.lt_succ_of_le (List.dropWhile_sublist deletes).length_le
      simp only [List.dropWhile_cons_of_pos hf, List.head?_cons, Option.mem_some_iff,
        exists_eq_left',
        hf, not_true_eq_false, iff_false]
      intro heq
      rw [heq] at hlen
      exact absurd hlen (Nat.lt_irrefl _)

theorem keepsFiles_removeTarget_iff (w : World) (target : Text) (deletes : Text → Bool) :
    KeepsFiles w (removeTarget w target deletes) ↔ ¬ Exposed w target (w.stack target) deletes := by
  have hupdate : ∀ c (fs : List Text),
      (∀ c', Function.update w.files c fs c' = w.files c') ↔ fs = w.files c := by
    intro c fs
    constructor
    · intro h
      simpa using h c
    · rintro rfl c'
      simp
  cases hstack : w.stack target with
  | nil =>
    simp only [KeepsFiles, removeTarget, writable, visible, hstack, if_true, Exposed]
    rw [hupdate, dropWhile_eq_self_iff_head]
  | cons m rest =>
    cases hro : m.readOnly with
    | true => simp [KeepsFiles, removeTarget, writable, hstack, hro, Exposed]
    | false =>
      simp only [KeepsFiles, removeTarget, writable, visible, hstack, hro, Bool.not_false, if_true,
        Exposed, true_and]
      rw [hupdate, dropWhile_eq_self_iff_head]

/-- A path without its visible mount. -/
def unstack (w : World) (target : Text) : World :=
  { w with stack := Function.update w.stack target (w.stack target).tail }

variable {w : World} {req : PublishRequest} {env : PublishEnv} {path : Text}

theorem unstack_of_nil {target : Text} (h : w.stack target = []) : unstack w target = w := by
  have hsame : (w.stack target).tail = w.stack target := by simp [h]
  rw [unstack, hsame, Function.update_eq_self]

theorem umount_eq (w : World) (target : Text) (o : Outcome) :
    (umount w target o).2 =
      if o = .ok then unstack w target else w := by
  cases o with
  | ok =>
    cases hstack : w.stack target with
    | nil => simp [umount, hstack, unstack_of_nil]
    | cons m rest => simp [umount, hstack, unstack]
  | failed stderr | notRun e => rfl

/-- Whether the two attempts of an unpublish request take a mount away. -/
def UnpublishEnv.unmounts (env : UnpublishEnv) : Prop :=
  env.umount = .ok ∨ (∃ stderr, env.umount = .failed stderr) ∧ env.lazyUmount = .ok

instance (env : UnpublishEnv) : Decidable env.unmounts :=
  match h : env.umount with
  | .ok => isTrue (.inl h)
  | .failed stderr =>
    decidable_of_iff (env.lazyUmount = .ok) (by simp [UnpublishEnv.unmounts, h])
  | .notRun e => isFalse (by simp [UnpublishEnv.unmounts, h])

theorem umountTarget_eq (w : World) (target : Text) (env : UnpublishEnv) :
    umountTarget w target env =
      if env.unmounts then unstack w target else w := by
  cases hu : env.umount with
  | ok =>
    have hyes : env.unmounts := .inl hu
    rw [if_pos hyes]
    cases hstack : w.stack target with
    | nil =>
      have hfirst : umount w target .ok = (.failed "not mounted".toList, w) := by
        simp [umount, hstack]
      simp only [umountTarget, hu, hfirst]
      rw [umount_eq, unstack_of_nil hstack, ite_self]
    | cons m rest => simp [umountTarget, hu, umount, hstack, unstack]
  | failed stderr =>
    have hiff : env.unmounts ↔ env.lazyUmount = .ok := by simp [UnpublishEnv.unmounts, hu]
    simp only [umountTarget, hu, umount, hiff]
    exact umount_eq w target env.lazyUmount
  | notRun e =>
    have hno : ¬ env.unmounts := by simp [UnpublishEnv.unmounts, hu]
    simp [umountTarget, hu, umount, if_neg hno]

/-- A publish request gets as far as the bind mount and fails to make it read-only. -/
structure RemountFails (w : World) (req : PublishRequest) (env : PublishEnv) : Prop where
  valid : checkPublish req = .ok ()
  target : isMountpoint w req.targetPath = false
  volume : w.mounts req.volumeId = none
  staging : isMountpoint w req.stagingTargetPath = true
  created : env.createDir = .ok ()
  bound : env.bind = .ok
  readOnly : req.readOnly = true
  remount : ∃ stderr, env.remount = .failed stderr

/-- What is mounted at the target when a publish request removes it. -/
def publishLeaves (w : World) (req : PublishRequest) (env : PublishEnv) : List MountEntry :=
  if env.umount = .ok then []
  else [⟨visible w req.stagingTargetPath, !writable w req.stagingTargetPath,
    some req.stagingTargetPath, some req.volumeId⟩]

/-- What is mounted at the target when an unpublish request removes it. -/
def unpublishLeaves (w : World) (req : UnpublishRequest) (env : UnpublishEnv) : List MountEntry :=
  if env.unmounts then (w.stack req.targetPath).tail else w.stack req.targetPath

theorem files_nodePublishVolume (h : ¬ RemountFails w req env) :
    (nodePublishVolume w req env).2.files = w.files := by
  simp only [nodePublishVolume]
  split
  · rfl
  · next u hvalid =>
    split
    · rfl
    · next htarget =>
      split
      · rfl
      · next hbefore =>
        split
        · rfl
        · next w₁ hprepare =>
          have hw₁ : w₁.files = w.files ∧ isMountpoint w req.stagingTargetPath = true ∧
              env.createDir = .ok () := by
            unfold prepareTarget at hprepare
            split at hprepare
            · next hstaging =>
              split at hprepare <;> cases hprepare
              rename_i hcreated
              exact ⟨rfl, hstaging, hcreated⟩
            · cases hprepare
          split
          · exact hw₁.1
          · next w₂ hbind =>
            have hw₂ : w₂.files = w₁.files ∧ env.bind = .ok := by
              unfold bindTarget at hbind
              split at hbind <;> cases hbind
              rename_i hok
              exact ⟨rfl, hok⟩
            unfold finishPublish
            split
            · next hro =>
              split
              · exact hw₂.1.trans hw₁.1
              · next stderr hremount =>
                refine absurd ⟨?_, by simpa using htarget, ?_, hw₁.2.1, hw₁.2.2, hw₂.2, hro, _,
                  hremount⟩ h
                · exact hvalid
                · unfold publishedBefore at hbefore
                  split at hbefore
                  · assumption
                  · split at hbefore <;> cases hbefore
              · exact hw₂.1.trans hw₁.1
            · exact hw₂.1.trans hw₁.1

theorem nodePublishVolume_of_remountFails (h : RemountFails w req env) :
    (nodePublishVolume w req env).2 =
      removeTarget
        (umount (bindMount { w with dirExists := Function.update w.dirExists req.targetPath true }
          req.volumeId req.stagingTargetPath req.targetPath) req.targetPath env.umount).2
        req.targetPath env.deletes := by
  obtain ⟨stderr, hremount⟩ := h.remount
  simp [nodePublishVolume, h.valid, h.target, publishedBefore, h.volume, prepareTarget, h.staging,
    h.created, bindTarget, h.bound, finishPublish, h.readOnly, hremount]

theorem keepsFiles_nodePublishVolume_iff (w : World) (req : PublishRequest) (env : PublishEnv) :
    KeepsFiles w (nodePublishVolume w req env).2 ↔
      (RemountFails w req env →
        ¬ Exposed w req.targetPath (publishLeaves w req env) env.deletes) := by
  by_cases h : RemountFails w req env
  · rw [nodePublishVolume_of_remountFails h, umount_eq]
    have hempty : w.stack req.targetPath = [] := by
      simpa [isMountpoint] using h.target
    simp only [h, true_imp_iff, publishLeaves]
    split
    · refine (keepsFiles_removeTarget_iff (unstack (bindMount _ _ _ _) _) _ _).trans ?_
      simp only [unstack, bindMount, Function.update_self, List.tail_cons, hempty]
      rfl
    · refine (keepsFiles_removeTarget_iff (bindMount _ _ _ _) _ _).trans ?_
      simp only [bindMount, Function.update_self, hempty]
      rfl
  · simp only [h, false_imp_iff, iff_true]
    exact fun c ↦ congrFun (files_nodePublishVolume h) c

theorem keepsFiles_nodeUnpublishVolume_iff (w : World) (req : UnpublishRequest)
    (env : UnpublishEnv) :
    KeepsFiles w (nodeUnpublishVolume w req env).2 ↔
      (checkUnpublish req = .ok () →
        ¬ Exposed w req.targetPath (unpublishLeaves w req env) env.deletes) := by
  simp only [nodeUnpublishVolume]
  cases hcheck : checkUnpublish req with
  | error e => simp [KeepsFiles]
  | ok u =>
    simp only [true_imp_iff, umountTarget_eq, unpublishLeaves]
    split
    · refine (keepsFiles_removeTarget_iff (unstack w req.targetPath) _ _).trans ?_
      simp only [unstack, Function.update_self]
      rfl
    · exact keepsFiles_removeTarget_iff w _ _

theorem dirExists_removeTarget {target : Text} (deletes : Text → Bool) (h : path ≠ target) :
    (removeTarget w target deletes).dirExists path = w.dirExists path := by
  unfold removeTarget
  split
  · dsimp only
    split
    · rw [Function.update_of_ne h]
    · rfl
  · rfl

theorem dirExists_umount (w : World) (target : Text) (o : Outcome) :
    (umount w target o).2.dirExists = w.dirExists := by
  rw [umount_eq]
  split <;> rfl

theorem dirExists_nodePublishVolume (h : path ≠ req.targetPath) :
    (nodePublishVolume w req env).2.dirExists path = w.dirExists path := by
  simp only [nodePublishVolume]
  split
  · rfl
  split
  · rfl
  split
  · rfl
  split
  · rfl
  · next w₁ hprepare =>
    have hw₁ : w₁.dirExists path = w.dirExists path := by
      unfold prepareTarget at hprepare
      split at hprepare
      · split at hprepare <;> cases hprepare
        exact Function.update_of_ne h _ _
      · cases hprepare
    split
    · exact hw₁
    · next w₂ hbind =>
      have hw₂ : w₂.dirExists = w₁.dirExists := by
        unfold bindTarget at hbind
        split at hbind <;> cases hbind
        rfl
      rw [← hw₁, ← hw₂]
      unfold finishPublish
      split
      · split
        · rfl
        · rw [dirExists_removeTarget _ h, dirExists_umount]
        · rfl
      · rfl

theorem dirExists_nodeUnpublishVolume {req : UnpublishRequest} {env : UnpublishEnv}
    (h : path ≠ req.targetPath) :
    (nodeUnpublishVolume w req env).2.dirExists path = w.dirExists path := by
  simp only [nodeUnpublishVolume]
  split
  · rfl
  · simp only [dirExists_removeTarget _ h, umountTarget_eq]
    split <;> rfl

/-- Publishing and unpublishing remove nothing but the target directory exactly if, when that is
removed, what is mounted there is read-only or has no file to delete, and the directory itself has
none if nothing is mounted. -/
theorem publish_requests_keep_data_iff (w : World) :
    (∀ req env, KeepsData w (nodePublishVolume w req env).2 req.targetPath ↔
      (RemountFails w req env →
        ¬ Exposed w req.targetPath (publishLeaves w req env) env.deletes)) ∧
    ∀ req env, KeepsData w (nodeUnpublishVolume w req env).2 req.targetPath ↔
      (checkUnpublish req = .ok () →
        ¬ Exposed w req.targetPath (unpublishLeaves w req env) env.deletes) := by
  constructor
  · intro req env
    rw [← keepsFiles_nodePublishVolume_iff]
    exact and_iff_left (fun path hne ↦ dirExists_nodePublishVolume hne)
  · intro req env
    rw [← keepsFiles_nodeUnpublishVolume_iff]
    exact and_iff_left (fun path hne ↦ dirExists_nodeUnpublishVolume hne)

/-- Volume 7 with one file is mounted at the staging path `s` and bound to the target `t`. -/
def boundWorld (readOnly : Bool) : World where
  stack := fun p ↦
    if p = ['s'] then [⟨.volume 7, false, none, none⟩]
    else if p = ['t'] then [⟨.volume 7, readOnly, some ['s'], some ['v']⟩] else []
  dirExists := fun _ ↦ true
  files := fun c ↦ if c = .volume 7 then [['f']] else []
  mounts := fun v ↦ if v = ['v'] then some ⟨['t'], readOnly⟩ else none

/-- The same volume before it is published. -/
def stagedWorld : World :=
  { boundWorld false with
    stack := fun p ↦ if p = ['s'] then [⟨.volume 7, false, none, none⟩] else []
    mounts := fun _ ↦ none }

/-- An unmount that fails both times, and a remount and an unmount that fail, cost the volume its
files. -/
theorem publish_requests_delete_volume :
    (nodeUnpublishVolume (boundWorld false) ⟨['v'], ['t']⟩
        ⟨.failed [], .failed [], fun _ ↦ true⟩).2.files (.volume 7) = [] ∧
      (nodePublishVolume stagedWorld ⟨['v'], ['t'], ['s'], some (some 2)⟩
        ⟨.ok (), .ok, .failed [], .failed [], fun _ ↦ true⟩).2.files (.volume 7) = [] ∧
      stagedWorld.files (.volume 7) = [['f']] := by
  decide

end Mntrs.Csi

import Mathlib.Data.List.Perm.Basic
import Mntrs.Csi.Publish

/-!
# Publish and unpublish requests in parallel

The node service answers requests concurrently. The requests are cut at the scopes in which they
lock the map of the node service and at the commands they run
(`src/csi/mntrs-csi/src/main.rs:653-716`, `738-775`, `777-825`). Run alone, a request does what its
function does.
-/

namespace Mntrs.Csi

open Base

inductive PublishStage where
  | lookAtTarget
  | recordMounted
  | lookUpVolume
  | prepare
  | bind
  | remount
  | tearDown (stderr : Text)
  | removeTarget (stderr : Text)
  | record
deriving DecidableEq, Repr

inductive UnpublishStage where
  | umount
  | lazyUmount
  | removeTarget
  | forget
deriving DecidableEq, Repr

/-- A request in progress. -/
inductive Call where
  | publish (req : PublishRequest) (env : PublishEnv) (stage : PublishStage)
  | unpublish (req : UnpublishRequest) (env : UnpublishEnv) (stage : UnpublishStage)

abbrev Answer := Except Status Unit

def Call.volumeId : Call → Text
  | .publish req .. => req.volumeId
  | .unpublish req .. => req.volumeId

def Call.targetPath : Call → Text
  | .publish req .. => req.targetPath
  | .unpublish req .. => req.targetPath

/-- The next step of a publish request. -/
def publishNext (w : World) (req : PublishRequest) (env : PublishEnv) :
    PublishStage → World × (PublishStage ⊕ Answer)
  | .lookAtTarget =>
    (w, .inl (if isMountpoint w req.targetPath then .recordMounted else .lookUpVolume))
  | .recordMounted => (recordMount w req.volumeId req.targetPath false, .inr (.ok ()))
  | .lookUpVolume =>
    match publishedBefore w req with
    | some answer => (w, .inr answer)
    | none => (w, .inl .prepare)
  | .prepare =>
    match prepareTarget w req env with
    | .error e => (w, .inr (.error e))
    | .ok w => (w, .inl .bind)
  | .bind =>
    match bindTarget w req env with
    | .error e => (w, .inr (.error e))
    | .ok w => (w, .inl (if req.readOnly then .remount else .record))
  | .remount =>
    match env.remount with
    | .notRun e =>
      (w, .inr (.error ⟨.internal, "mount -o remount,bind,ro failed: ".toList ++ e⟩))
    | .failed stderr => (w, .inl (.tearDown stderr))
    | .ok => (remountReadOnly w req.targetPath, .inl .record)
  | .tearDown stderr => ((umount w req.targetPath env.umount).2, .inl (.removeTarget stderr))
  | .removeTarget stderr =>
    (removeTarget w req.targetPath env.deletes, .inr (.error (remountError req stderr)))
  | .record => (recordMount w req.volumeId req.targetPath req.readOnly, .inr (.ok ()))

/-- The next step of an unpublish request. -/
def unpublishNext (w : World) (req : UnpublishRequest) (env : UnpublishEnv) :
    UnpublishStage → World × (UnpublishStage ⊕ Answer)
  | .umount =>
    match umount w req.targetPath env.umount with
    | (.failed _, w) => (w, .inl .lazyUmount)
    | (_, w) => (w, .inl .removeTarget)
  | .lazyUmount => ((umount w req.targetPath env.lazyUmount).2, .inl .removeTarget)
  | .removeTarget => (removeTarget w req.targetPath env.deletes, .inl .forget)
  | .forget =>
    ({ w with mounts := Function.update w.mounts req.volumeId none }, .inr (.ok ()))

/-- The next step of a request. -/
def Call.next (w : World) : Call → World × (Call ⊕ Answer)
  | .publish req env stage =>
    match publishNext w req env stage with
    | (w, .inl stage) => (w, .inl (.publish req env stage))
    | (w, .inr answer) => (w, .inr answer)
  | .unpublish req env stage =>
    match unpublishNext w req env stage with
    | (w, .inl stage) => (w, .inl (.unpublish req env stage))
    | (w, .inr answer) => (w, .inr answer)

/-- Run alone, the request turns one world into the other and answers. -/
inductive Alone : World → Call → Answer → World → Prop
  | answer {w w' : World} {c : Call} {a : Answer} (h : c.next w = (w', .inr a)) : Alone w c a w'
  | go {w w' : World} {c : Call} {a : Answer} (w₁ : World) (c₁ : Call)
      (h : c.next w = (w₁, .inl c₁)) (hrest : Alone w₁ c₁ a w') : Alone w c a w'

theorem alone_finishPublish (w : World) (req : PublishRequest) (env : PublishEnv) :
    Alone w (.publish req env (if req.readOnly then .remount else .record))
      (finishPublish w req env).1 (finishPublish w req env).2 := by
  unfold finishPublish
  split
  · next hro =>
    split
    · next e hremount =>
      exact .answer (by simp [Call.next, publishNext, hremount])
    · next stderr hremount =>
      refine .go w (.publish req env (.tearDown stderr)) ?_ (.go _ _ rfl (.answer rfl))
      simp [Call.next, publishNext, hremount]
    · next hremount =>
      refine .go (remountReadOnly w req.targetPath) (.publish req env .record) ?_ (.answer ?_)
      · simp [Call.next, publishNext, hremount]
      · simp [Call.next, publishNext, hro]
  · next hro =>
    exact .answer (by simp [Call.next, publishNext, hro])

/-- A publish request that runs alone does what `node_publish_volume` does. -/
theorem alone_publish {req : PublishRequest} (h : checkPublish req = .ok ()) (w : World)
    (env : PublishEnv) :
    Alone w (.publish req env .lookAtTarget) (nodePublishVolume w req env).1
      (nodePublishVolume w req env).2 := by
  simp only [nodePublishVolume, h]
  split
  · next hmounted =>
    refine .go w (.publish req env .recordMounted) ?_ (.answer rfl)
    simp [Call.next, publishNext, hmounted]
  · next hmounted =>
    refine .go w (.publish req env .lookUpVolume) (by simp [Call.next, publishNext, hmounted]) ?_
    split
    · next answer hbefore => exact .answer (by simp [Call.next, publishNext, hbefore])
    · next hbefore =>
      refine .go w (.publish req env .prepare) (by simp [Call.next, publishNext, hbefore]) ?_
      split
      · next e hprepare => exact .answer (by simp [Call.next, publishNext, hprepare])
      · next w₁ hprepare =>
        refine .go w₁ (.publish req env .bind) (by simp [Call.next, publishNext, hprepare]) ?_
        split
        · next e hbind => exact .answer (by simp [Call.next, publishNext, hbind])
        · next w₂ hbind =>
          refine .go w₂ _ ?_ (alone_finishPublish w₂ req env)
          simp [Call.next, publishNext, hbind]

/-- An unpublish request that runs alone does what `node_unpublish_volume` does. -/
theorem alone_unpublish {req : UnpublishRequest} (h : checkUnpublish req = .ok ()) (w : World)
    (env : UnpublishEnv) :
    Alone w (.unpublish req env .umount) (nodeUnpublishVolume w req env).1
      (nodeUnpublishVolume w req env).2 := by
  simp only [nodeUnpublishVolume, h, umountTarget]
  split
  · next stderr w₁ humount =>
    refine .go w₁ (.unpublish req env .lazyUmount) ?_ (.go _ _ rfl (.go _ _ rfl (.answer rfl)))
    simp [Call.next, unpublishNext, humount]
  · next o w₁ hne humount =>
    refine .go w₁ (.unpublish req env .removeTarget) ?_ (.go _ _ rfl (.answer rfl))
    simp [Call.next, unpublishNext, humount]

/-! ### The machine -/

/-- The host with the node service, and the requests in progress. -/
structure Service where
  world : World
  calls : List Call

/-- A request arrives, or the one at a position takes its next step. -/
inductive ServiceLabel where
  | publish (req : PublishRequest) (env : PublishEnv)
  | unpublish (req : UnpublishRequest) (env : UnpublishEnv)
  | advance (i : Nat)

def serviceStep (l : ServiceLabel) (s : Service) : Option Service :=
  match l with
  | .publish req env =>
    match checkPublish req with
    | .error _ => some s
    | .ok () => some { s with calls := s.calls ++ [.publish req env .lookAtTarget] }
  | .unpublish req env =>
    match checkUnpublish req with
    | .error _ => some s
    | .ok () => some { s with calls := s.calls ++ [.unpublish req env .umount] }
  | .advance i =>
    match s.calls[i]? with
    | none => none
    | some c =>
      match c.next s.world with
      | (w, .inl c') => some ⟨w, s.calls.set i c'⟩
      | (w, .inr _) => some ⟨w, s.calls.eraseIdx i⟩

/-- What is visible at the target is a bind mount of the staging path, read-only if that was asked
for. -/
def Published (w : World) (req : PublishRequest) : Prop :=
  ∃ m ∈ (w.stack req.targetPath).head?,
    m.bindOf = some req.stagingTargetPath ∧ (req.readOnly = true → m.readOnly = true)

/-- A bind mount made for the volume is live at the path. -/
def LiveTarget (w : World) (volumeId path : Text) : Prop :=
  ∃ m ∈ w.stack path, m.owner = some volumeId

/-- No volume has two live bind targets. -/
def OneTarget (w : World) : Prop :=
  ∀ v t t', LiveTarget w v t → LiveTarget w v t' → t = t'

/-! ### Orderly requests -/

/-- Which volume each target is for, and how each volume is staged and published. -/
structure Plan where
  volumeOf : Text → Option Text
  staging : Text → Text
  readOnly : Text → Bool

/-- No request for the volume is in progress. -/
def Idle (s : Service) (volumeId : Text) : Prop := ∀ c ∈ s.calls, c.volumeId ≠ volumeId

/-- Requests for one volume come one at a time and agree on its staging path and access mode, a
target is used for one volume, an unpublish request names the target its volume is recorded under,
and an unmount that is needed succeeds. -/
def Orderly (plan : Plan) (s : Service) : ServiceLabel → Prop
  | .publish req env =>
    checkPublish req = .ok () →
      Idle s req.volumeId ∧ plan.volumeOf req.targetPath = some req.volumeId ∧
      plan.staging req.volumeId = req.stagingTargetPath ∧
      plan.readOnly req.volumeId = req.readOnly ∧
      (∀ e, env.remount ≠ .notRun e) ∧ env.umount = .ok
  | .unpublish req env =>
    checkUnpublish req = .ok () →
      Idle s req.volumeId ∧ plan.volumeOf req.targetPath = some req.volumeId ∧
      (∀ st ∈ s.world.mounts req.volumeId, st.mountpoint = req.targetPath) ∧ env.unmounts
  | .advance _ => True

section

variable (plan : Plan)

/-- The bind mount a volume is to have. -/
structure BoundFor (v : Text) (m : MountEntry) : Prop where
  bindOf : m.bindOf = some (plan.staging v)
  owner : m.owner = some v

/-- Nothing is mounted at the targets of the volume. -/
def Unbound (w : World) (v : Text) : Prop := ∀ t, plan.volumeOf t = some v → w.stack t = []

/-- One bind mount is at one target of the volume, and nothing at the others. -/
def BoundAt (w : World) (v t : Text) (m : MountEntry) : Prop :=
  w.stack t = [m] ∧ BoundFor plan v m ∧ ∀ t', t' ≠ t → plan.volumeOf t' = some v → w.stack t' = []

/-- The mount has the flags the volume is to have. -/
def FlagsFor (v : Text) (m : MountEntry) : Prop := plan.readOnly v = true → m.readOnly = true

/-- The map and the mount table agree on a volume. -/
def Settled (w : World) (v : Text) : Prop :=
  (w.mounts v = none ∧ Unbound plan w v) ∨
    ∃ st, w.mounts v = some st ∧ plan.volumeOf st.mountpoint = some v ∧
      ∃ m, BoundAt plan w v st.mountpoint m ∧ FlagsFor plan v m

/-- What holds of the volume of a request in progress. -/
def InProgress (w : World) : Call → Prop
  | .publish req env stage =>
    plan.volumeOf req.targetPath = some req.volumeId ∧
    plan.staging req.volumeId = req.stagingTargetPath ∧
    plan.readOnly req.volumeId = req.readOnly ∧
    (∀ e, env.remount ≠ .notRun e) ∧ env.umount = .ok ∧
    match stage with
    | .lookAtTarget => Settled plan w req.volumeId
    | .recordMounted =>
      Settled plan w req.volumeId ∧ w.stack req.targetPath ≠ []
    | .lookUpVolume =>
      Settled plan w req.volumeId ∧ w.stack req.targetPath = []
    | .prepare | .bind | .removeTarget _ =>
      w.mounts req.volumeId = none ∧ Unbound plan w req.volumeId
    | .remount | .tearDown _ =>
      w.mounts req.volumeId = none ∧
        ∃ m, BoundAt plan w req.volumeId req.targetPath m
    | .record =>
      w.mounts req.volumeId = none ∧
        ∃ m, BoundAt plan w req.volumeId req.targetPath m ∧ FlagsFor plan req.volumeId m
  | .unpublish req env stage =>
    plan.volumeOf req.targetPath = some req.volumeId ∧ env.unmounts ∧
    match stage with
    | .umount =>
      Settled plan w req.volumeId ∧
        ∀ st ∈ w.mounts req.volumeId, st.mountpoint = req.targetPath
    | .lazyUmount =>
      (Settled plan w req.volumeId ∧
        ∀ st ∈ w.mounts req.volumeId, st.mountpoint = req.targetPath) ∧
      (env.lazyUmount = .ok ∨ w.stack req.targetPath = [])
    | .removeTarget | .forget => Unbound plan w req.volumeId

/-- What every orderly run keeps. -/
structure Consistent (s : Service) : Prop where
  owners : ∀ t, ∀ m ∈ s.world.stack t, ∀ v, m.owner = some v → plan.volumeOf t = some v
  calls : ∀ c ∈ s.calls, InProgress plan s.world c
  distinct : (s.calls.map Call.volumeId).Nodup
  settled : ∀ v, v ∉ s.calls.map Call.volumeId → Settled plan s.world v

end

variable {plan : Plan} {w w' : World} {v : Text}

/-- The worlds look the same to a volume. -/
def SameFor (plan : Plan) (v : Text) (w w' : World) : Prop :=
  w'.mounts v = w.mounts v ∧ ∀ t, plan.volumeOf t = some v → w'.stack t = w.stack t

theorem Unbound.congr (hsame : SameFor plan v w w') (h : Unbound plan w v) : Unbound plan w' v :=
  fun t ht ↦ (hsame.2 t ht).trans (h t ht)

variable {t : Text} {c : Call} {i : Nat}

theorem BoundAt.congr (hsame : SameFor plan v w w') {m : MountEntry}
    (ht : plan.volumeOf t = some v) (h : BoundAt plan w v t m) : BoundAt plan w' v t m :=
  ⟨(hsame.2 t ht).trans h.1, h.2.1, fun t' hne ht' ↦ (hsame.2 t' ht').trans (h.2.2 t' hne ht')⟩

theorem Settled.congr (hsame : SameFor plan v w w') (h : Settled plan w v) : Settled plan w' v := by
  rcases h with ⟨hnone, hunbound⟩ | ⟨st, hst, ht, m, hbound, hflags⟩
  · exact .inl ⟨hsame.1.trans hnone, hunbound.congr hsame⟩
  · exact .inr ⟨st, hsame.1.trans hst, ht, m, hbound.congr hsame ht, hflags⟩

theorem InProgress.congr (hsame : SameFor plan c.volumeId w w') (h : InProgress plan w c) :
    InProgress plan w' c := by
  cases c with
  | publish req env stage =>
    obtain ⟨ht, hstaging, hro, hremount, humount, hstage⟩ := h
    refine ⟨ht, hstaging, hro, hremount, humount, ?_⟩
    have hstack := hsame.2 req.targetPath ht
    cases stage with
    | lookAtTarget => exact hstage.congr hsame
    | recordMounted => exact ⟨hstage.1.congr hsame, by rw [hstack]; exact hstage.2⟩
    | lookUpVolume => exact ⟨hstage.1.congr hsame, hstack.trans hstage.2⟩
    | prepare | bind | removeTarget =>
      exact ⟨hsame.1.trans hstage.1, hstage.2.congr hsame⟩
    | remount | tearDown =>
      exact ⟨hsame.1.trans hstage.1, hstage.2.imp (fun m hm ↦ hm.congr hsame ht)⟩
    | record =>
      exact ⟨hsame.1.trans hstage.1, hstage.2.imp (fun m hm ↦ ⟨hm.1.congr hsame ht, hm.2⟩)⟩
  | unpublish req env stage =>
    obtain ⟨ht, hunmounts, hstage⟩ := h
    refine ⟨ht, hunmounts, ?_⟩
    have hstack := hsame.2 req.targetPath ht
    cases stage with
    | umount =>
      exact ⟨hstage.1.congr hsame, fun st hst ↦ hstage.2 st (hsame.1 ▸ hst)⟩
    | lazyUmount =>
      exact ⟨⟨hstage.1.1.congr hsame, fun st hst ↦ hstage.1.2 st (hsame.1 ▸ hst)⟩,
        hstage.2.imp id hstack.trans⟩
    | removeTarget | forget => exact hstage.congr hsame

/-! ### One step of a request -/

/-- A step touches the map entry of its volume and the mounts at its target, where it adds only
mounts of its volume. -/
structure Touches (c : Call) (w w' : World) : Prop where
  mounts : ∀ v, v ≠ c.volumeId → w'.mounts v = w.mounts v
  stack : ∀ t, t ≠ c.targetPath → w'.stack t = w.stack t
  owners : ∀ m ∈ w'.stack c.targetPath,
    m.owner = some c.volumeId ∨ ∃ m' ∈ w.stack c.targetPath, m'.owner = m.owner

theorem Touches.refl (c : Call) (w : World) : Touches c w w where
  mounts _ _ := rfl
  stack _ _ := rfl
  owners m hm := .inr ⟨m, hm, rfl⟩

theorem Touches.of_same (hmounts : ∀ v, v ≠ c.volumeId → w'.mounts v = w.mounts v)
    (hstack : w'.stack = w.stack) : Touches c w w' where
  mounts := hmounts
  stack t _ := congrFun hstack t
  owners m hm := .inr ⟨m, congrFun hstack c.targetPath ▸ hm, rfl⟩

theorem Touches.of_unstack : Touches c w (unstack w c.targetPath) where
  mounts _ _ := rfl
  stack t ht := Function.update_of_ne ht _ _
  owners m hm := by
    simp only [unstack, Function.update_self] at hm
    exact .inr ⟨m, List.mem_of_mem_tail hm, rfl⟩

theorem removeTarget_frame (w : World) (target : Text) (deletes : Text → Bool) :
    (removeTarget w target deletes).stack = w.stack ∧
      (removeTarget w target deletes).mounts = w.mounts := by
  unfold removeTarget
  split <;> exact ⟨rfl, rfl⟩

theorem sameFor_of_eq (hmounts : w'.mounts = w.mounts) (hstack : w'.stack = w.stack) :
    SameFor plan v w w' :=
  ⟨congrFun hmounts v, fun t _ ↦ congrFun hstack t⟩

theorem Settled.of_mounted (h : Settled plan w v) (ht : plan.volumeOf t = some v)
    (hne : w.stack t ≠ []) : ∃ m, BoundAt plan w v t m ∧ FlagsFor plan v m := by
  rcases h with ⟨-, hunbound⟩ | ⟨st, -, -, m, hbound, hflags⟩
  · exact absurd (hunbound t ht) hne
  · obtain rfl : t = st.mountpoint := by
      by_contra hdiff
      exact hne (hbound.2.2 t hdiff ht)
    exact ⟨m, hbound, hflags⟩

theorem Settled.of_none (h : Settled plan w v) (hnone : w.mounts v = none) :
    Unbound plan w v := by
  rcases h with ⟨-, hunbound⟩ | ⟨st, hst, -⟩
  · exact hunbound
  · rw [hnone] at hst
    cases hst

theorem settled_recordMount {readOnly : Bool} (ht : plan.volumeOf t = some v)
    (h : ∃ m, BoundAt plan w v t m ∧ FlagsFor plan v m) :
    Settled plan (recordMount w v t readOnly) v :=
  .inr ⟨⟨t, readOnly⟩, by simp [recordMount], ht, h⟩

theorem unbound_unstack (h : w.stack t = [] ∨ ∃ m, w.stack t = [m])
    (hothers : ∀ t', t' ≠ t → plan.volumeOf t' = some v → w.stack t' = []) :
    Unbound plan (unstack w t) v := by
  intro t' ht'
  by_cases hsame : t' = t
  · subst hsame
    rcases h with hnil | ⟨m, hm⟩
    · simp [unstack, hnil]
    · simp [unstack, hm]
  · simp only [unstack, Function.update_of_ne hsame]
    exact hothers t' hsame ht'

theorem InProgress.publishNext {req : PublishRequest} {env : PublishEnv} {stage : PublishStage}
    (h : InProgress plan w (.publish req env stage)) :
    Touches (.publish req env stage) w (publishNext w req env stage).1 ∧
      match (Csi.publishNext w req env stage).2 with
      | .inl stage' =>
        InProgress plan (Csi.publishNext w req env stage).1 (.publish req env stage')
      | .inr answer =>
        Settled plan (Csi.publishNext w req env stage).1 req.volumeId ∧
          (answer = .ok () → Published (Csi.publishNext w req env stage).1 req) := by
  obtain ⟨ht, hstaging, hro, hremount, humount, hstage⟩ := h
  have hplan : ∀ {stage' w'}, _ → InProgress plan w' (.publish req env stage') :=
    fun hstage' ↦ ⟨ht, hstaging, hro, hremount, humount, hstage'⟩
  -- A mount with the right flags at the target is what the request asked for.
  have hpublished : ∀ {w' : World} {m : MountEntry}, BoundAt plan w' req.volumeId req.targetPath m →
      FlagsFor plan req.volumeId m → Published w' req := by
    intro w' m hbound hflags
    refine ⟨m, by simp [hbound.1], hstaging ▸ hbound.2.1.bindOf, fun hwant ↦ hflags ?_⟩
    rw [hro, hwant]
  cases stage with
  | lookAtTarget =>
    refine ⟨.refl _ _, ?_⟩
    simp only [Csi.publishNext]
    split <;> next hmounted => exact hplan ⟨hstage, by simpa [isMountpoint] using hmounted⟩
  | recordMounted =>
    obtain ⟨m, hbound, hflags⟩ := hstage.1.of_mounted ht hstage.2
    refine ⟨.of_same (fun v hv ↦ Function.update_of_ne hv _ _) rfl, ?_⟩
    exact ⟨settled_recordMount ht ⟨m, hbound, hflags⟩, fun _ ↦ hpublished hbound hflags⟩
  | lookUpVolume =>
    simp only [Csi.publishNext, publishedBefore]
    split
    · next answer hbefore =>
      refine ⟨.refl _ _, hstage.1, ?_⟩
      -- The map names a target that is mounted, so it is not this one.
      rintro rfl
      split at hbefore
      · cases hbefore
      · next st hst =>
        split at hbefore
        · cases hbefore
        · next hsame =>
          rw [not_not] at hsame
          rcases hstage.1 with ⟨hnone, -⟩ | ⟨st', hst', -, m, hbound, -⟩
          · rw [hnone] at hst
            cases hst
          · rw [hst] at hst'
            cases hst'
            have hstack := hbound.1
            rw [hsame, hstage.2] at hstack
            cases hstack
    · next hbefore =>
      refine ⟨.refl _ _, hplan ?_⟩
      have hnone : w.mounts req.volumeId = none := by
        split at hbefore
        · assumption
        · split at hbefore <;> cases hbefore
      exact ⟨hnone, hstage.1.of_none hnone⟩
  | prepare =>
    simp only [Csi.publishNext, prepareTarget]
    split
    · next e hprepare => exact ⟨.refl _ _, .inl hstage, by simp⟩
    · next w₁ hprepare =>
      split at hprepare
      · split at hprepare <;> cases hprepare
        exact ⟨.of_same (fun _ _ ↦ rfl) rfl, hplan hstage⟩
      · cases hprepare
  | bind =>
    simp only [Csi.publishNext, bindTarget]
    split
    · next e hbind => exact ⟨.refl _ _, .inl hstage, by simp⟩
    · next w₁ hbind =>
      split at hbind <;> cases hbind
      have hempty := hstage.2 req.targetPath ht
      have hbound : BoundAt plan
          (bindMount w req.volumeId req.stagingTargetPath req.targetPath) req.volumeId
          req.targetPath ⟨visible w req.stagingTargetPath, !writable w req.stagingTargetPath,
            some req.stagingTargetPath, some req.volumeId⟩ := by
        refine ⟨by simp [bindMount, hempty], ⟨by rw [hstaging], rfl⟩, fun t' hne ht' ↦ ?_⟩
        simp only [bindMount, Function.update_of_ne hne]
        exact hstage.2 t' ht'
      refine ⟨⟨fun _ _ ↦ rfl, fun t hne ↦ Function.update_of_ne hne _ _, fun m hm ↦ .inl ?_⟩, ?_⟩
      · have hstack := hbound.1
        simp only [Call.targetPath] at hm
        rw [hstack, List.mem_singleton] at hm
        rw [hm]
        rfl
      · cases hwant : req.readOnly with
        | true => exact @hplan .remount _ ⟨hstage.1, _, hbound⟩
        | false =>
          refine @hplan .record _ ⟨hstage.1, _, hbound, fun hflag ↦ ?_⟩
          rw [hro, hwant] at hflag
          cases hflag
  | remount =>
    obtain ⟨hnone, m, hbound⟩ := hstage
    simp only [Csi.publishNext]
    split
    · next e he => exact absurd he (hremount e)
    · exact ⟨.refl _ _, hplan ⟨hnone, m, hbound⟩⟩
    · have hstack : (remountReadOnly w req.targetPath).stack req.targetPath =
          [{ m with readOnly := true }] := by
        simp [remountReadOnly, hbound.1]
      refine ⟨⟨fun _ _ ↦ rfl, fun t hne ↦ Function.update_of_ne hne _ _, fun m' hm' ↦ ?_⟩,
        hplan ⟨hnone, { m with readOnly := true },
          ⟨hstack, ⟨hbound.2.1.bindOf, hbound.2.1.owner⟩, fun t' hne ht' ↦ ?_⟩, fun _ ↦ rfl⟩⟩
      · simp only [Call.targetPath] at hm'
        rw [hstack, List.mem_singleton] at hm'
        exact .inl (hm' ▸ hbound.2.1.owner)
      · simp only [remountReadOnly, Function.update_of_ne hne]
        exact hbound.2.2 t' hne ht'
  | tearDown stderr =>
    obtain ⟨hnone, m, hbound⟩ := hstage
    simp only [Csi.publishNext, umount_eq, humount, if_true]
    exact ⟨.of_unstack, hplan ⟨hnone, unbound_unstack (.inr ⟨m, hbound.1⟩) hbound.2.2⟩⟩
  | removeTarget stderr =>
    obtain ⟨hstack, hmounts⟩ := removeTarget_frame w req.targetPath env.deletes
    refine ⟨.of_same (fun v _ ↦ congrFun hmounts v) hstack, ?_⟩
    exact ⟨Settled.congr (sameFor_of_eq hmounts hstack) (.inl hstage), by simp⟩
  | record =>
    obtain ⟨-, m, hbound, hflags⟩ := hstage
    refine ⟨.of_same (fun v hv ↦ Function.update_of_ne hv _ _) rfl, ?_⟩
    exact ⟨settled_recordMount ht ⟨m, hbound, hflags⟩, fun _ ↦ hpublished hbound hflags⟩

theorem InProgress.unpublishNext {req : UnpublishRequest} {env : UnpublishEnv}
    {stage : UnpublishStage} (h : InProgress plan w (.unpublish req env stage)) :
    Touches (.unpublish req env stage) w (unpublishNext w req env stage).1 ∧
      match (Csi.unpublishNext w req env stage).2 with
      | .inl stage' =>
        InProgress plan (Csi.unpublishNext w req env stage).1 (.unpublish req env stage')
      | .inr _ => Settled plan (Csi.unpublishNext w req env stage).1 req.volumeId := by
  obtain ⟨ht, hunmounts, hstage⟩ := h
  have hplan : ∀ {stage' w'}, _ → InProgress plan w' (.unpublish req env stage') :=
    fun hstage' ↦ ⟨ht, hunmounts, hstage'⟩
  -- A settled volume that can only be at the target is unbound once the target's mount is gone.
  have hgone : Settled plan w req.volumeId →
      (∀ st ∈ w.mounts req.volumeId, st.mountpoint = req.targetPath) →
      Unbound plan (unstack w req.targetPath) req.volumeId := by
    intro hsettled hnames
    rcases hsettled with ⟨-, hunbound⟩ | ⟨st, hst, -, m, hbound, -⟩
    · exact unbound_unstack (.inl (hunbound _ ht)) (fun t' _ ht' ↦ hunbound t' ht')
    · rw [hnames st hst] at hbound
      exact unbound_unstack (.inr ⟨m, hbound.1⟩) hbound.2.2
  cases stage with
  | umount =>
    cases hu : env.umount with
    | ok =>
      cases hstack : w.stack req.targetPath with
      | nil =>
        have hfirst : Csi.unpublishNext w req env .umount = (w, .inl .lazyUmount) := by
          simp [Csi.unpublishNext, umount, hu, hstack]
        rw [hfirst]
        exact ⟨.refl _ _, hplan ⟨hstage, .inr hstack⟩⟩
      | cons m rest =>
        have hfirst : Csi.unpublishNext w req env .umount =
            (unstack w req.targetPath, .inl .removeTarget) := by
          simp [Csi.unpublishNext, umount, hu, hstack, unstack]
        rw [hfirst]
        exact ⟨.of_unstack, hplan (hgone hstage.1 hstage.2)⟩
    | failed stderr =>
      have hfirst : Csi.unpublishNext w req env .umount = (w, .inl .lazyUmount) := by
        simp [Csi.unpublishNext, umount, hu]
      rw [hfirst]
      refine ⟨.refl _ _, hplan ⟨hstage, .inl ?_⟩⟩
      simpa [UnpublishEnv.unmounts, hu] using hunmounts
    | notRun e => simp [UnpublishEnv.unmounts, hu] at hunmounts
  | lazyUmount =>
    simp only [Csi.unpublishNext, umount_eq]
    split
    · exact ⟨.of_unstack, hplan (hgone hstage.1.1 hstage.1.2)⟩
    · next hnot =>
      have hempty := hstage.2.resolve_left hnot
      have hunbound := hgone hstage.1.1 hstage.1.2
      rw [unstack_of_nil hempty] at hunbound
      exact ⟨.refl _ _, hplan hunbound⟩
  | removeTarget =>
    obtain ⟨hstack, hmounts⟩ := removeTarget_frame w req.targetPath env.deletes
    refine ⟨.of_same (fun v _ ↦ congrFun hmounts v) hstack, hplan ?_⟩
    exact Unbound.congr (sameFor_of_eq hmounts hstack) hstage
  | forget =>
    refine ⟨.of_same (fun v hv ↦ Function.update_of_ne hv _ _) rfl, .inl ⟨?_, hstage⟩⟩
    simp [Csi.unpublishNext]

theorem InProgress.target (h : InProgress plan w c) :
    plan.volumeOf c.targetPath = some c.volumeId := by
  cases c with
  | publish req env stage | unpublish req env stage => exact h.1

/-- A step of a request. -/
theorem InProgress.next (h : InProgress plan w c) :
    Touches c w (c.next w).1 ∧
      match (c.next w).2 with
      | .inl c' => c'.volumeId = c.volumeId ∧ InProgress plan (c.next w).1 c'
      | .inr _ => Settled plan (c.next w).1 c.volumeId := by
  cases c with
  | publish req env stage =>
    obtain ⟨htouches, hresult⟩ := h.publishNext
    simp only [Call.next]
    split <;> rename_i hnext <;> rw [hnext] at htouches hresult
    · exact ⟨htouches, rfl, hresult⟩
    · exact ⟨htouches, hresult.1⟩
  | unpublish req env stage =>
    obtain ⟨htouches, hresult⟩ := h.unpublishNext
    simp only [Call.next]
    split <;> rename_i hnext <;> rw [hnext] at htouches hresult
    · exact ⟨htouches, rfl, hresult⟩
    · exact ⟨htouches, hresult⟩

theorem Touches.sameFor (h : Touches c w w')
    (htarget : plan.volumeOf c.targetPath = some c.volumeId) (hv : v ≠ c.volumeId) :
    SameFor plan v w w' := by
  refine ⟨h.mounts v hv, fun t ht ↦ h.stack t ?_⟩
  rintro rfl
  rw [htarget] at ht
  exact hv (Option.some_inj.mp ht).symm

/-! ### Whole runs -/

namespace Consistent

variable {s s' : Service}

section

variable (h : Consistent plan s)
include h

theorem arrive (hidle : Idle s c.volumeId)
    (hc : Settled plan s.world c.volumeId → InProgress plan s.world c) :
    Consistent plan { s with calls := s.calls ++ [c] } := by
  have hnew : c.volumeId ∉ s.calls.map Call.volumeId := by
    intro hmem
    obtain ⟨c', hc', heq⟩ := List.mem_map.mp hmem
    exact hidle c' hc' heq
  refine ⟨h.owners, fun c' hc' ↦ ?_, ?_, fun v hv ↦ h.settled v ?_⟩
  · rcases List.mem_append.mp hc' with hold | hlast
    · exact h.calls c' hold
    · cases List.mem_singleton.mp hlast
      exact hc (h.settled _ hnew)
  · rw [List.map_append]
    exact List.nodup_append.mpr ⟨h.distinct, by simp, by
      intro a ha b hb hab
      rw [List.map_singleton, List.mem_singleton] at hb
      exact hnew (hb ▸ hab ▸ ha)⟩
  · intro hmem
    exact hv (by rw [List.map_append]; exact List.mem_append_left _ hmem)

theorem owners_of_touches (hc : c ∈ s.calls) (htouches : Touches c s.world w') :
    ∀ t, ∀ m ∈ w'.stack t, ∀ v, m.owner = some v → plan.volumeOf t = some v := by
  intro t m hm v hv
  by_cases ht : t = c.targetPath
  · subst ht
    rcases htouches.owners m hm with hown | ⟨m', hm', hsame⟩
    · rw [hv] at hown
      rw [(h.calls c hc).target, hown]
    · exact h.owners _ m' hm' v (hsame.trans hv)
  · rw [htouches.stack t ht] at hm
    exact h.owners t m hm v hv

theorem other_volume {c' : Call} (hc : s.calls[i]? = some c) (hc' : c' ∈ s.calls.eraseIdx i) :
    c'.volumeId ≠ c.volumeId := by
  obtain ⟨hi, hget⟩ := List.getElem?_eq_some_iff.mp hc
  have hperm := (List.getElem_cons_eraseIdx_perm hi).map Call.volumeId
  have hnodup := hperm.nodup_iff.mpr h.distinct
  rw [List.map_cons, List.nodup_cons, hget] at hnodup
  exact fun heq ↦ hnodup.1 (heq ▸ List.mem_map_of_mem hc')

/-- A request goes on. -/
theorem goOn {c' : Call} (hc : s.calls[i]? = some c) (htouches : Touches c s.world w')
    (hid : c'.volumeId = c.volumeId) (hprogress : InProgress plan w' c') :
    Consistent plan ⟨w', s.calls.set i c'⟩ := by
  have hmem := List.mem_of_getElem? hc
  have htarget := (h.calls c hmem).target
  obtain ⟨hi, hget⟩ := List.getElem?_eq_some_iff.mp hc
  have hids : (s.calls.set i c').map Call.volumeId = s.calls.map Call.volumeId := by
    rw [List.map_set, hid, ← hget]
    refine List.ext_getElem (by simp) (fun j hj hj' ↦ ?_)
    rw [List.getElem_set]
    split
    · next hij =>
      subst hij
      simp
    · rfl
  refine ⟨h.owners_of_touches hmem htouches, fun d hd ↦ ?_, by rw [hids]; exact h.distinct,
    fun v hv ↦ ?_⟩
  · rcases List.mem_iff_getElem.mp hd with ⟨j, hj, rfl⟩
    rw [List.getElem_set]
    split
    · exact hprogress
    · next hij =>
      have hj' : j < s.calls.length := by simpa using hj
      have hin : s.calls[j] ∈ s.calls.eraseIdx i :=
        List.mem_eraseIdx_iff_getElem?.mpr ⟨j, fun heq ↦ hij heq.symm, by simp⟩
      exact (h.calls _ (List.getElem_mem hj')).congr
        (htouches.sameFor htarget (h.other_volume hc hin))
  · rw [hids] at hv
    refine (h.settled v hv).congr (htouches.sameFor htarget ?_)
    rintro rfl
    exact hv (List.mem_map_of_mem hmem)

/-- A request is answered. -/
theorem finish (hc : s.calls[i]? = some c) (htouches : Touches c s.world w')
    (hsettled : Settled plan w' c.volumeId) : Consistent plan ⟨w', s.calls.eraseIdx i⟩ := by
  have hmem := List.mem_of_getElem? hc
  have htarget := (h.calls c hmem).target
  refine ⟨h.owners_of_touches hmem htouches, fun d hd ↦ ?_, ?_, fun v hv ↦ ?_⟩
  · exact (h.calls d (List.mem_of_mem_eraseIdx hd)).congr
      (htouches.sameFor htarget (h.other_volume hc hd))
  · exact h.distinct.sublist ((List.eraseIdx_sublist s.calls i).map Call.volumeId)
  · by_cases hsame : v = c.volumeId
    · rw [hsame]
      exact hsettled
    · refine (h.settled v ?_).congr (htouches.sameFor htarget hsame)
      intro hin
      obtain ⟨d, hd, rfl⟩ := List.mem_map.mp hin
      obtain ⟨hi, hget⟩ := List.getElem?_eq_some_iff.mp hc
      have hd' := (List.getElem_cons_eraseIdx_perm hi).mem_iff.mpr hd
      rcases List.mem_cons.mp hd' with rfl | hrest
      · exact hsame (by rw [hget])
      · exact hv (List.mem_map_of_mem hrest)

/-- One orderly step. -/
theorem step {l : ServiceLabel} (hguard : Orderly plan s l) (hstep : serviceStep l s = some s') :
    Consistent plan s' := by
  cases l with
  | publish req env =>
    simp only [serviceStep] at hstep
    split at hstep
    · cases hstep
      exact h
    · next u hcheck =>
      cases hstep
      obtain ⟨hidle, ht, hstaging, hro, hremount, humount⟩ := hguard hcheck
      exact h.arrive hidle (fun hsettled ↦ ⟨ht, hstaging, hro, hremount, humount, hsettled⟩)
  | unpublish req env =>
    simp only [serviceStep] at hstep
    split at hstep
    · cases hstep
      exact h
    · next u hcheck =>
      cases hstep
      obtain ⟨hidle, ht, hnames, hunmounts⟩ := hguard hcheck
      exact h.arrive hidle (fun hsettled ↦ ⟨ht, hunmounts, hsettled, hnames⟩)
  | advance i =>
    simp only [serviceStep] at hstep
    split at hstep
    · cases hstep
    · next c hc =>
      obtain ⟨htouches, hresult⟩ := (h.calls c (List.mem_of_getElem? hc)).next
      split at hstep <;> rename_i hnext <;> rw [hnext] at htouches hresult <;> cases hstep
      · exact h.goOn hc htouches hresult.1 hresult.2
      · exact h.finish hc htouches hresult

theorem oneTarget : OneTarget s.world := by
  rintro v t t' ⟨m, hm, hown⟩ ⟨m', hm', hown'⟩
  have ht := h.owners t m hm v hown
  have ht' := h.owners t' m' hm' v hown'
  have hne : s.world.stack t ≠ [] := List.ne_nil_of_mem hm
  have hne' : s.world.stack t' ≠ [] := List.ne_nil_of_mem hm'
  -- Whatever the stage, at most one of the volume's targets has a mount.
  have hone : Unbound plan s.world v ∨ ∃ t₁ m₁, BoundAt plan s.world v t₁ m₁ := by
    have hof : Settled plan s.world v →
        Unbound plan s.world v ∨ ∃ t₁ m₁, BoundAt plan s.world v t₁ m₁ := by
      rintro (⟨-, hunbound⟩ | ⟨st, -, -, m₁, hbound, -⟩)
      · exact .inl hunbound
      · exact .inr ⟨_, _, hbound⟩
    by_cases hin : v ∈ s.calls.map Call.volumeId
    · obtain ⟨c, hc, rfl⟩ := List.mem_map.mp hin
      have hprogress := h.calls c hc
      cases c with
      | publish req env stage =>
        obtain ⟨-, -, -, -, -, hstage⟩ := hprogress
        cases stage with
        | lookAtTarget => exact hof hstage
        | recordMounted | lookUpVolume => exact hof hstage.1
        | prepare | bind | removeTarget => exact .inl hstage.2
        | remount | tearDown => exact .inr ⟨_, hstage.2⟩
        | record => exact .inr ⟨_, hstage.2.imp (fun _ hm ↦ hm.1)⟩
      | unpublish req env stage =>
        obtain ⟨-, -, hstage⟩ := hprogress
        cases stage with
        | umount => exact hof hstage.1
        | lazyUmount => exact hof hstage.1.1
        | removeTarget | forget => exact .inl hstage
    · exact hof (h.settled v hin)
  rcases hone with hunbound | ⟨t₁, m₁, hbound⟩
  · exact absurd (hunbound t ht) hne
  · have hat : ∀ {t₂}, plan.volumeOf t₂ = some v → s.world.stack t₂ ≠ [] → t₂ = t₁ := by
      intro t₂ ht₂ hne₂
      by_contra hdiff
      exact hne₂ (hbound.2.2 t₂ hdiff ht₂)
    rw [hat ht hne, hat ht' hne']

end

/-- The service has no request in progress, no volume in its map and nothing mounted at the
targets; other mounts were not made for a volume. -/
theorem of_fresh (hcalls : s.calls = []) (hmounts : ∀ v, s.world.mounts v = none)
    (htargets : ∀ t v, plan.volumeOf t = some v → s.world.stack t = [])
    (howners : ∀ t, ∀ m ∈ s.world.stack t, m.owner = none) : Consistent plan s where
  owners t m hm v hv := by
    rw [howners t m hm] at hv
    cases hv
  calls c hc := by simp [hcalls] at hc
  distinct := by simp [hcalls]
  settled v _ := .inl ⟨hmounts v, fun t ht ↦ htargets t v ht⟩

end Consistent

/-- Orderly requests, however they interleave: no volume ever has two live bind targets, and a
publish request that is answered with Ok has its target bound as it asked. -/
theorem publish_sound_of_run {s t : Service} (hcalls : s.calls = [])
    (hmounts : ∀ v, s.world.mounts v = none)
    (htargets : ∀ t v, plan.volumeOf t = some v → s.world.stack t = [])
    (howners : ∀ t, ∀ m ∈ s.world.stack t, m.owner = none)
    (hrun : GuardedRun serviceStep (Orderly plan) s t) :
    OneTarget t.world ∧
      ∀ (i : Nat) req env stage w', t.calls[i]? = some (Call.publish req env stage) →
        (Call.publish req env stage).next t.world = (w', .inr (.ok ())) → Published w' req := by
  have hconsistent : Consistent plan t := hrun.invariant (Consistent plan)
    (fun _ _ _ hs hguard hstep ↦ hs.step hguard hstep)
    (.of_fresh hcalls hmounts htargets howners)
  refine ⟨hconsistent.oneTarget, fun i req env stage w' hc hnext ↦ ?_⟩
  obtain ⟨-, hresult⟩ := (hconsistent.calls _ (List.mem_of_getElem? hc)).publishNext
  simp only [Call.next] at hnext
  split at hnext <;> rename_i hstage <;> rw [hstage] at hresult
  · cases hnext
  · cases hnext
    exact hresult.2 rfl

/-- Commands that all succeed. -/
def goodEnv : PublishEnv := ⟨.ok (), .ok, .ok, .ok, fun _ ↦ true⟩

/-- The volume `v`, staged at `s` and to be published at `t` for reading. -/
def readerRequest : PublishRequest := ⟨['v'], ['t'], ['s'], some (some 3)⟩

theorem alone_publish_sample :
    ∃ w, Alone stagedWorld (.publish readerRequest goodEnv .lookAtTarget) (.ok ()) w :=
  ⟨_, alone_publish rfl _ _⟩

theorem alone_unpublish_sample :
    ∃ w, Alone stagedWorld (.unpublish ⟨['v'], ['t']⟩ ⟨.ok, .ok, fun _ ↦ true⟩ .umount)
      (.ok ()) w :=
  ⟨_, alone_unpublish rfl _ _⟩

/-- `t` and `u` are targets of `v`. -/
def onePlan : Plan where
  volumeOf := fun t ↦ if t = ['t'] ∨ t = ['u'] then some ['v'] else none
  staging := fun _ ↦ ['s']
  readOnly := fun _ ↦ true

theorem admits_advances (plan : Plan) (n : Nat) (s : Service) :
    Admits serviceStep (Orderly plan) (List.replicate n (.advance 0)) s := by
  induction n generalizing s with
  | zero => trivial
  | succ n ih => exact ⟨trivial, fun t _ ↦ ih t⟩

/-- A reader's volume is published, up to the answer. -/
theorem publish_sound_of_run_sample :
    ∃ t, GuardedRun serviceStep (Orderly onePlan) ⟨stagedWorld, []⟩ t ∧ OneTarget t.world ∧
      ∃ w', t.calls[0]? = some (Call.publish readerRequest goodEnv .record) ∧
        (Call.publish readerRequest goodEnv .record).next t.world = (w', .inr (.ok ())) ∧
        Published w' readerRequest := by
  obtain ⟨w, hexec⟩ : ∃ w, exec serviceStep
      (.publish readerRequest goodEnv :: List.replicate 5 (.advance 0)) ⟨stagedWorld, []⟩ =
        some ⟨w, [Call.publish readerRequest goodEnv .record]⟩ := ⟨_, rfl⟩
  have hrun : GuardedRun serviceStep (Orderly onePlan) ⟨stagedWorld, []⟩
      ⟨w, [Call.publish readerRequest goodEnv .record]⟩ := by
    refine guardedRun_of_exec hexec ⟨fun _ ↦ ?_, fun s _ ↦ admits_advances onePlan 5 s⟩
    exact ⟨(fun c hc ↦ by cases hc), by decide, rfl, by decide, (fun _ he ↦ by cases he), rfl⟩
  obtain ⟨hone, hpublished⟩ := publish_sound_of_run rfl (fun _ ↦ rfl)
    (fun t v ht ↦ by
      simp only [onePlan] at ht
      split at ht
      · next htarget => rcases htarget with rfl | rfl <;> rfl
      · cases ht)
    (fun t m hm ↦ by
      simp only [stagedWorld] at hm
      split at hm
      · cases List.mem_singleton.mp hm
        rfl
      · cases hm) hrun
  exact ⟨_, hrun, hone, _, rfl, rfl, hpublished 0 _ _ _ _ rfl rfl⟩

/-- A writer's request for the volume `v` at a target. -/
def writerRequest (target : Text) : PublishRequest := ⟨['v'], target, ['s'], some (some 1)⟩

/-- Two requests that look at the map before either enters its target bind the volume twice; and a
target that is already mounted answers Ok for a staging path and an access mode it does not have. -/
theorem publish_unsound :
    (∃ t, GuardedRun serviceStep (fun _ _ ↦ True) ⟨stagedWorld, []⟩ t ∧ t.calls = [] ∧
      ¬ OneTarget t.world) ∧
    ∃ w', (Call.publish ⟨['x'], ['t'], ['y'], some (some 3)⟩ goodEnv .recordMounted).next
        (boundWorld false) = (w', .inr (.ok ())) ∧
      nodePublishVolume (boundWorld false) ⟨['x'], ['t'], ['y'], some (some 3)⟩ goodEnv =
        (.ok (), w') ∧
      ¬ Published w' ⟨['x'], ['t'], ['y'], some (some 3)⟩ := by
  constructor
  · obtain ⟨w, hexec, hlive, hlive'⟩ : ∃ w, exec serviceStep
        (([.publish (writerRequest ['t']) goodEnv, .publish (writerRequest ['u']) goodEnv,
          .advance 0, .advance 0, .advance 1, .advance 1] : List ServiceLabel) ++
            List.replicate 6 (ServiceLabel.advance 0))
        ⟨stagedWorld, []⟩ = some ⟨w, []⟩ ∧
        (∃ m ∈ w.stack ['t'], m.owner = some ['v']) ∧ ∃ m ∈ w.stack ['u'], m.owner = some ['v'] :=
      ⟨_, rfl, ⟨_, List.mem_cons_self, rfl⟩, ⟨_, List.mem_cons_self, rfl⟩⟩
    refine ⟨_, guardedRun_of_exec hexec (admits_of_forall (fun _ _ ↦ trivial) _ _), rfl, ?_⟩
    intro hone
    exact absurd (hone ['v'] ['t'] ['u'] hlive hlive') (by decide)
  · refine ⟨_, rfl, rfl, ?_⟩
    rintro ⟨m, hm, hbind, -⟩
    cases hm
    exact absurd hbind (by decide)

end Mntrs.Csi

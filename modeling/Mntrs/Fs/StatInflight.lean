import Mathlib.Algebra.Order.BigOperators.Group.Finset
import Mntrs.Base.Machine
import Mntrs.Fs.Lookup

/-!
# One backend stat for concurrent callers

Models the single flight of `stat_op_async` on one path, `src/src/lib.rs:2435-2624`. The first
caller enters its notifier into `stat_inflight` and asks the backend, the others take the notifier
and wait for it. Taking the notifier and creating the future that waits for it are two steps, and
`notify_waiters` reaches the futures that exist; a caller that takes over removes whatever entry it
finds. Where a notifier is used only after all who took it wait for it, and no entry is removed
that somebody took a notifier from, every call returns.
-/

namespace Mntrs

open Base

/-- Where a call is. A notifier is named after the call that made it. -/
inductive StatStage where
  | begin
  | enter
  | follower (leader : Nat)
  | waiting (leader : Nat)
  | woken
  | takeOver
  | running
  | storing (result : Option FileStat)
  | leaving (result : Option FileStat)
  | notifying (leader : Nat) (result : Option FileStat)
  | returned (result : Option FileStat)
deriving DecidableEq

/-- The calls, and what `stat_inflight` and `attr_cache` have for the path. -/
structure StatSys where
  calls : Nat → StatStage
  inflight : Option Nat
  cached : Option AttrEntry

/-- Some calls start. -/
def StatSys.start (n : Nat) (cached : Option AttrEntry) : StatSys :=
  ⟨fun i ↦ if i < n then .begin else .returned none, none, cached⟩

/-- The call that takes its next step, the time, and the answer if it asks the backend. -/
structure StatLabel where
  call : Nat
  now : Nat
  answer : Option FileStat

namespace StatSys

/-- A call moves on. -/
def moved (s : StatSys) (i : Nat) (stage : StatStage) : StatSys :=
  { s with calls := Function.update s.calls i stage }

/-- The cached attributes, within their time to live. -/
def fresh (s : StatSys) (cfg : Config) (now : Nat) : Option FileStat :=
  if cfg.vfsRefresh then none
  else (s.cached.filter (fun e ↦ now - e.cachedAt < cfg.statCacheTtl)).map
    (fun e ↦ ⟨e.kind, e.size, e.mtime⟩)

/-- `notify_waiters`. -/
def notifyWaiters (s : StatSys) (leader : Nat) : StatSys :=
  { s with calls := fun j ↦ if s.calls j = .waiting leader then .woken else s.calls j }

end StatSys

/-- One step of one call; a call that waits has none. -/
def statStep (cfg : Config) (l : StatLabel) (s : StatSys) : Option StatSys :=
  let i := l.call
  match s.calls i with
  | .begin =>
    match s.fresh cfg l.now with
    | some st => some (s.moved i (.returned (some st)))
    | none => some (s.moved i .enter)
  | .enter =>
    match s.inflight with
    | none => some { s.moved i .running with inflight := some i }
    | some leader => some (s.moved i (.follower leader))
  | .follower leader => some (s.moved i (.waiting leader))
  | .waiting _ => none
  | .woken =>
    match s.fresh cfg l.now with
    | some st => some (s.moved i (.returned (some st)))
    | none => some (s.moved i .takeOver)
  | .takeOver => some { s.moved i .running with inflight := none }
  | .running => some (s.moved i (.storing l.answer))
  | .storing result => some { s.moved i (.leaving result) with
      cached := (result.map (fun st ↦ ⟨st.kind, st.size, st.mtime, l.now⟩)).or s.cached }
  | .leaving result =>
    match s.inflight with
    | some leader => some { s.moved i (.notifying leader result) with inflight := none }
    | none => some (s.moved i (.returned result))
  | .notifying leader result => some ((s.notifyWaiters leader).moved i (.returned result))
  | .returned _ => none

/-- The call holds a notifier that it waits for, or is going to. -/
def StatStage.Follows (leader : Nat) (stage : StatStage) : Prop :=
  stage = .follower leader ∨ stage = .waiting leader

/-- The call is between its entry into `stat_inflight` and its exit. -/
def StatStage.Runs (stage : StatStage) : Prop :=
  stage = .running ∨ ∃ result, stage = .storing result ∨ stage = .leaving result

/-- A notifier is used when all who took it wait, and an entry that is removed on a takeover is
one nobody took a notifier from. -/
def UndisturbedFlight (s : StatSys) (l : StatLabel) : Prop :=
  match s.calls l.call with
  | .notifying leader _ => ∀ j, s.calls j ≠ .follower leader
  | .takeOver => ∀ leader ∈ s.inflight, ∀ j, ¬(s.calls j).Follows leader
  | _ => True

/-- The maker of the notifier in `stat_inflight` is under way, and whoever follows a notifier can
still be woken. -/
structure Followed (s : StatSys) : Prop where
  runs : ∀ leader, s.inflight = some leader → (s.calls leader).Runs
  heard : ∀ j leader, (s.calls j).Follows leader →
    s.inflight = some leader ∨ ∃ i result, s.calls i = .notifying leader result

variable {s t : StatSys} {i : Nat} {stage : StatStage} {cfg : Config} {l : StatLabel} {n : Nat}

/-- A call moves on, and may enter itself into `stat_inflight` or clear it. -/
theorem Followed.moved (h : Followed s) (hcalls : t.calls = Function.update s.calls i stage)
    (hquiet : ∀ leader result, s.calls i ≠ .notifying leader result)
    (hentry : ∀ leader, t.inflight = some leader → leader = i ∨ s.inflight = some leader)
    (hown : t.inflight = some i → stage.Runs)
    (hfollows : ∀ leader, stage.Follows leader →
      t.inflight = some leader ∨ (s.calls i).Follows leader)
    (hlost : ∀ leader, s.inflight = some leader → t.inflight = some leader ∨
      (∃ result, stage = .notifying leader result) ∨ ∀ j, ¬(s.calls j).Follows leader) :
    Followed t := by
  constructor
  · intro leader hleader
    rw [hcalls, Function.update_apply]
    split_ifs with hi
    · exact hown (hi ▸ hleader)
    · exact h.runs leader ((hentry leader hleader).resolve_left hi)
  · intro j leader hj
    have hold : t.inflight = some leader ∨ (∃ k, (s.calls k).Follows leader) := by
      rw [hcalls, Function.update_apply] at hj
      split_ifs at hj with hi
      · exact (hfollows leader hj).imp_right fun hf ↦ ⟨i, hf⟩
      · exact .inr ⟨j, hj⟩
    obtain hold | ⟨k, hk⟩ := hold
    · exact .inl hold
    · obtain hin | ⟨n, result, hn⟩ := h.heard k leader hk
      · obtain hin | ⟨result, hres⟩ | hnone := hlost leader hin
        · exact .inl hin
        · exact .inr ⟨i, result, by rw [hcalls, Function.update_self, hres]⟩
        · exact absurd hk (hnone k)
      · have hne : n ≠ i := fun hni ↦ hquiet leader result (hni ▸ hn)
        exact .inr ⟨n, result, by rw [hcalls, Function.update_of_ne hne, hn]⟩

/-- A call moves on and leaves `stat_inflight` alone. -/
theorem Followed.moved_keep (h : Followed s) (hcalls : t.calls = Function.update s.calls i stage)
    (hinflight : t.inflight = s.inflight)
    (hquiet : ∀ leader result, s.calls i ≠ .notifying leader result)
    (hown : (s.calls i).Runs → stage.Runs)
    (hfollows : ∀ leader, stage.Follows leader →
      s.inflight = some leader ∨ (s.calls i).Follows leader) : Followed t := by
  rw [← hinflight] at hfollows
  refine h.moved hcalls hquiet ?_ ?_ hfollows ?_
  · exact fun leader hl ↦ .inr (hinflight ▸ hl)
  · exact fun hl ↦ hown (h.runs i (hinflight ▸ hl))
  · exact fun leader hl ↦ .inl (hinflight ▸ hl)

/-- The notifier is used: whoever followed it waited and is woken. -/
theorem Followed.notified {leader : Nat} {result : Option FileStat} (h : Followed s)
    (hi : s.calls i = .notifying leader result) (hguard : ∀ j, s.calls j ≠ .follower leader) :
    Followed ((s.notifyWaiters leader).moved i (.returned result)) := by
  have hkept : ∀ j, j ≠ i → s.calls j ≠ .waiting leader →
      ((s.notifyWaiters leader).moved i (.returned result)).calls j = s.calls j := by
    intro j hj hwait
    exact (Function.update_of_ne hj _ _).trans (if_neg hwait)
  constructor
  · intro n hn
    have hruns := h.runs n hn
    have hne : n ≠ i := by
      rintro rfl
      simp [StatStage.Runs, hi] at hruns
    rw [hkept n hne (by rintro hw; simp [StatStage.Runs, hw] at hruns)]
    exact hruns
  · intro j n hj
    have hne : j ≠ i := by
      rintro rfl
      simp [StatSys.moved, StatStage.Follows] at hj
    have hwait : s.calls j ≠ .waiting leader := by
      intro hw
      simp [StatSys.moved, StatSys.notifyWaiters, hne, hw, StatStage.Follows] at hj
    rw [hkept j hne hwait] at hj
    have hother : n ≠ leader := by
      rintro rfl
      exact hj.elim (hguard j) hwait
    refine (h.heard j n hj).imp_right ?_
    rintro ⟨k, r, hk⟩
    refine ⟨k, r, ?_⟩
    rw [hkept k (by rintro rfl; simp_all) (by simp [hk]), hk]

/-- One step keeps it so. -/
theorem Followed.step (h : Followed s) (hguard : UndisturbedFlight s l)
    (hstep : statStep cfg l s = some t) : Followed t := by
  simp only [statStep] at hstep
  simp only [UndisturbedFlight] at hguard
  cases hstage : s.calls l.call <;> simp only [hstage] at hstep hguard
  case begin | woken =>
    split at hstep <;> cases hstep <;>
      exact h.moved_keep rfl rfl (by simp [hstage]) (by simp [hstage, StatStage.Runs])
        (by simp [StatStage.Follows])
  case enter =>
    split at hstep <;> cases hstep
    case h_1 hnone =>
      exact h.moved rfl (by simp [hstage]) (by simp) (by simp [StatStage.Runs])
        (by simp [StatStage.Follows]) (by simp [hnone])
    case h_2 leader hsome =>
      exact h.moved_keep rfl rfl (by simp [hstage]) (by simp [hstage, StatStage.Runs])
        (by simp [StatStage.Follows, hsome])
  case follower leader =>
    cases hstep
    exact h.moved_keep rfl rfl (by simp [hstage]) (by simp [hstage, StatStage.Runs])
      (by simp [StatStage.Follows, hstage])
  case takeOver =>
    cases hstep
    exact h.moved rfl (by simp [hstage]) (by simp) (by simp) (by simp [StatStage.Follows])
      fun leader hl ↦ .inr (.inr (hguard leader hl))
  case running | storing =>
    cases hstep
    exact h.moved_keep rfl rfl (by simp [hstage]) (by simp [StatStage.Runs])
      (by simp [StatStage.Follows])
  case leaving result =>
    split at hstep <;> cases hstep
    case h_1 leader hsome =>
      exact h.moved rfl (by simp [hstage]) (by simp) (by simp) (by simp [StatStage.Follows])
        (by simp [hsome])
    case h_2 hnone =>
      exact h.moved rfl (by simp [hstage]) (by simp [StatSys.moved, hnone])
        (by simp [StatSys.moved, hnone]) (by simp [StatStage.Follows]) (by simp [hnone])
  case notifying leader result =>
    cases hstep
    exact h.notified hstage hguard
  case waiting | returned => cases hstep

/-- How far a call is from its return. -/
def StatStage.rank : StatStage → Nat
  | .begin => 10
  | .enter => 9
  | .follower _ => 8
  | .waiting _ => 7
  | .woken => 6
  | .takeOver => 5
  | .running => 4
  | .storing _ => 3
  | .leaving _ => 2
  | .notifying _ _ => 1
  | .returned _ => 0

/-- A step brings its call nearer to the return and no other call away from it. -/
theorem statStep_rank (hstep : statStep cfg l s = some t) :
    (t.calls l.call).rank < (s.calls l.call).rank ∧
      ∀ j, (t.calls j).rank ≤ (s.calls j).rank := by
  have hmoved : ∀ {stage : StatStage}, stage.rank < (s.calls l.call).rank →
      ((s.moved l.call stage).calls l.call).rank < (s.calls l.call).rank ∧
        ∀ j, ((s.moved l.call stage).calls j).rank ≤ (s.calls j).rank := by
    intro stage hlt
    refine ⟨by simpa [StatSys.moved] using hlt, fun j ↦ ?_⟩
    by_cases hj : j = l.call
    · subst hj
      simpa [StatSys.moved] using hlt.le
    · simp [StatSys.moved, hj]
  simp only [statStep] at hstep
  cases hstage : s.calls l.call <;> simp only [hstage] at hstep hmoved ⊢
  case begin | enter | woken | leaving =>
    split at hstep <;> cases hstep <;> exact hmoved (by simp [StatStage.rank])
  case follower | takeOver | running | storing =>
    cases hstep
    exact hmoved (by simp [StatStage.rank])
  case notifying leader result =>
    cases hstep
    refine ⟨by simp [StatSys.moved, StatStage.rank], fun j ↦ ?_⟩
    by_cases hj : j = l.call
    · simp [StatSys.moved, StatStage.rank, hj]
    · by_cases hwait : s.calls j = .waiting leader <;>
        simp [StatSys.moved, StatSys.notifyWaiters, hj, hwait, StatStage.rank]
  case waiting | returned => cases hstep

/-- The calls beyond the given number have returned. -/
def Bounded (n : Nat) (s : StatSys) : Prop :=
  ∀ i, n ≤ i → (s.calls i).rank = 0

private theorem Bounded.step (h : Bounded n s) (hstep : statStep cfg l s = some t) : Bounded n t :=
  fun i hi ↦ Nat.le_zero.mp (h i hi ▸ (statStep_rank hstep).2 i)

/-- All that the calls have left to do. -/
def StatSys.left (n : Nat) (s : StatSys) : Nat :=
  ∑ i ∈ Finset.range n, (s.calls i).rank

private theorem Bounded.left_lt (h : Bounded n s) (hstep : statStep cfg l s = some t) :
    t.left n < s.left n := by
  obtain ⟨hlt, hle⟩ := statStep_rank hstep
  have hcall : l.call < n := by
    by_contra hge
    have hzero := h l.call (by omega)
    omega
  exact Finset.sum_lt_sum (fun i _ ↦ hle i) ⟨l.call, Finset.mem_range.mpr hcall, hlt⟩

/-- The calls take at most ten steps each, whatever the order. -/
theorem length_le_of_exec_start {cached : Option AttrEntry} {ls : List StatLabel}
    (hrun : exec (statStep cfg) ls (.start n cached) = some s) : ls.length ≤ 10 * n := by
  have hstart : (StatSys.start n cached).left n = 10 * n := by
    have hranks : ∀ i ∈ Finset.range n, ((StatSys.start n cached).calls i).rank = 10 := by
      intro i hi
      simp [StatSys.start, Finset.mem_range.mp hi, StatStage.rank]
    rw [StatSys.left, Finset.sum_congr rfl hranks]
    simp [mul_comm]
  have hbounded : Bounded n (.start n cached) := by
    intro i hi
    simp [StatSys.start, Nat.not_lt.mpr hi, StatStage.rank]
  have hcount := countP_add_le_of_measure (fun _ ↦ true) (StatSys.left n)
    (fun s l t (h : Bounded n s) (_ : True) hstep ↦ h.step hstep)
    (fun s l t h _ hstep ↦ (h.left_lt hstep).le) (fun s l t h _ hstep _ ↦ h.left_lt hstep)
    hbounded hrun (admits_of_forall (fun _ _ ↦ trivial) ls _)
  simp only [List.countP_true] at hcount
  omega

/-- Where nothing moves, a call waits or has returned. -/
theorem waiting_or_returned_of_stuck (hstuck : ∀ l, statStep cfg l s = none) (i : Nat) :
    (∃ leader, s.calls i = .waiting leader) ∨ ∃ result, s.calls i = .returned result := by
  have hnone := hstuck ⟨i, 0, none⟩
  simp only [statStep] at hnone
  cases hstage : s.calls i <;> simp only [hstage] at hnone
  case waiting leader => exact .inl ⟨leader, rfl⟩
  case returned result => exact .inr ⟨result, rfl⟩
  all_goals first | cases hnone | (split at hnone <;> cases hnone)

/-- Calls that are not disturbed come to an end, and when nothing moves all have returned. -/
theorem stat_calls_return {cfg : Config} {n : Nat} {cached : Option AttrEntry} {s : StatSys}
    {ls : List StatLabel} (hrun : exec (statStep cfg) ls (.start n cached) = some s)
    (hguard : Admits (statStep cfg) UndisturbedFlight ls (.start n cached)) :
    ls.length ≤ 10 * n ∧ ((∀ l, statStep cfg l s = none) →
      ∀ i, ∃ result, s.calls i = .returned result) := by
  refine ⟨length_le_of_exec_start hrun, fun hstuck i ↦ ?_⟩
  have hfollowed : Followed s := by
    refine (guardedRun_of_exec hrun hguard).invariant Followed
      (fun s l t h hg hstep ↦ h.step hg hstep) ⟨?_, ?_⟩
    · simp [StatSys.start]
    · intro j leader hj
      simp only [StatSys.start] at hj
      split_ifs at hj <;> simp [StatStage.Follows] at hj
  obtain ⟨leader, hwait⟩ | hreturned := waiting_or_returned_of_stuck hstuck i
  · -- the maker of the notifier, or the one who uses it, could move
    obtain hin | ⟨k, result, hk⟩ := hfollowed.heard i leader (.inr hwait)
    · have hruns := hfollowed.runs leader hin
      obtain ⟨n, hn⟩ | ⟨r, hr⟩ := waiting_or_returned_of_stuck hstuck leader
      · simp [StatStage.Runs, hn] at hruns
      · simp [StatStage.Runs, hr] at hruns
    · obtain ⟨n, hn⟩ | ⟨r, hr⟩ := waiting_or_returned_of_stuck hstuck k
      · simp [hk] at hn
      · simp [hk] at hr
  · exact hreturned

/-- The labels of some calls' steps, at one time and with one answer. -/
def stepsOf (calls : List Nat) (answer : Option FileStat) : List StatLabel :=
  calls.map fun i ↦ ⟨i, 0, answer⟩

/-- The second of two calls waits for the first, whose stat fails, and asks the backend itself. -/
theorem stat_calls_return_sample : ∃ s,
    exec (statStep (Config.plain .off)) (stepsOf [0, 1, 0, 1, 1, 0, 0, 0, 0, 1, 1, 1, 1, 1] none)
      (.start 2 none) = some s ∧
    (∀ l, statStep (Config.plain .off) l s = none) ∧
    ∀ i, ∃ result, s.calls i = .returned result := by
  obtain ⟨s, hs, hstuck⟩ : ∃ s, exec (statStep (Config.plain .off))
      (stepsOf [0, 1, 0, 1, 1, 0, 0, 0, 0, 1, 1, 1, 1, 1] none) (.start 2 none) = some s ∧
      ∀ l, statStep (Config.plain .off) l s = none :=
    ⟨_, rfl, by rintro ⟨_ | _ | i, now, answer⟩ <;> rfl⟩
  refine ⟨s, hs, hstuck, (stat_calls_return hs ?_).2 hstuck⟩
  -- the steps up to the use of the notifier need nothing
  iterate 8
    refine ⟨trivial, ?_⟩
    rintro _ ⟨⟩
  refine ⟨?_, ?_⟩
  · rintro (_ | _ | j) hj <;> cases hj
  rintro _ ⟨⟩
  refine ⟨trivial, ?_⟩
  rintro _ ⟨⟩
  refine ⟨nofun, ?_⟩
  rintro _ ⟨⟩
  iterate 3
    refine ⟨trivial, ?_⟩
    rintro _ ⟨⟩
  trivial

/-- The first of two calls asks the backend and wakes whoever waits, and only then the second,
which has the notifier, starts to wait. -/
theorem follower_waits_forever : ∃ s,
    exec (statStep (Config.plain .off)) (stepsOf [0, 1, 0, 1, 0, 0, 0, 0, 1] none)
      (.start 2 none) = some s ∧
    (∀ l, statStep (Config.plain .off) l s = none) ∧ s.calls 1 = .waiting 0 := by
  refine ⟨_, rfl, ?_, rfl⟩
  rintro ⟨_ | _ | i, now, answer⟩ <;> rfl

end Mntrs

import Mathlib.Data.List.Basic
import Mntrs.Base.Machine

/-!
# The slot for the FUSE session

`mount` parks the session it has started in one slot of the process, and takes it out again to
wait for its end; `unmount_internal` takes whatever session is parked and shuts it down. Models
the two as calls cut where they lock the slot: `src/src/cmd/mount.rs:1907-1928` and `2357-2380`
(`mount`), `758-813` (`unmount_internal`). Dropping a session unmounts it.
-/

namespace Mntrs.Mount

open Base

/-- A `fuser::BackgroundSession` and the mountpoint it serves. -/
structure Session where
  id : Nat
  mountpoint : List Char
deriving DecidableEq, Repr

/-- What is done to a session. -/
inductive Deed where
  | join
  | unmount
  | drop
deriving DecidableEq, Repr

/-- A session, what was done to it, and the mountpoint whose call did it. -/
structure Touch where
  session : Session
  deed : Deed
  behalf : List Char
deriving DecidableEq, Repr

/-- Where a call stands. A `mount` spawns its session, stores it, takes what is in the slot and
joins it, or waits for the mountpoint to disappear. An `unmount_internal` takes what is in the slot
and unmounts it; without a session, or if that fails, it runs `fusermount3` on its mountpoint. -/
inductive SessionCall where
  | spawning (mountpoint : List Char)
  | storing (session : Session)
  | taking (session : Session)
  | joining (mountpoint : List Char) (session : Session)
  | waiting (mountpoint : List Char)
  | unmountTaking (mountpoint : List Char)
  | unmounting (mountpoint : List Char) (session : Session)
  | fusermount (mountpoint : List Char)
deriving DecidableEq, Repr

/-- The slot `FUSE_SESSION`, the calls in progress and, as a ghost, what was done to sessions. -/
structure Sessions where
  slot : Option Session
  nextId : Nat
  calls : List SessionCall
  touched : List Touch
deriving DecidableEq, Repr

def Sessions.initial : Sessions := ⟨none, 0, [], []⟩

/-- A call starts, or the one at a position takes its next step. A step of the host may fail. -/
inductive SessionLabel where
  | mount (mountpoint : List Char)
  | unmountInternal (mountpoint : List Char)
  | advance (i : Nat) (ok : Bool)
deriving DecidableEq, Repr

/-- The call at the position goes on, or is over. -/
def Sessions.goOn (s : Sessions) (i : Nat) (call : Option SessionCall) : Sessions :=
  { s with calls := match call with
      | some c => s.calls.set i c
      | none => s.calls.eraseIdx i }

/-- The next step of a call: what it leaves in the slot, what it does to sessions, and where the
call stands afterwards. -/
def sessionAdvance (s : Sessions) (ok : Bool) :
    SessionCall → Option Session × List Touch × Option SessionCall
  | .spawning m => (s.slot, [], if ok then some (.storing ⟨s.nextId, m⟩) else none)
  | .storing x =>
    -- The assignment drops the session that was parked before.
    (some x, s.slot.toList.map (⟨·, .drop, x.mountpoint⟩), some (.taking x))
  | .taking x =>
    match s.slot with
    | some y => (none, [], some (.joining x.mountpoint y))
    | none => (none, [], some (.waiting x.mountpoint))
  | .joining m y => (s.slot, [⟨y, .join, m⟩], none)
  | .waiting _ => (s.slot, [], none)
  | .unmountTaking m =>
    match s.slot with
    | some y => (none, [], some (.unmounting m y))
    | none => (none, [], some (.fusermount m))
  | .unmounting m y =>
    (s.slot, [⟨y, .unmount, m⟩, ⟨y, .join, m⟩], if ok then none else some (.fusermount m))
  | .fusermount _ => (s.slot, [], none)

/-- One step of one call. -/
def sessionStep (l : SessionLabel) (s : Sessions) : Option Sessions :=
  match l with
  | .mount m => some { s with calls := s.calls ++ [.spawning m] }
  | .unmountInternal m => some { s with calls := s.calls ++ [.unmountTaking m] }
  | .advance i ok =>
    match s.calls[i]? with
    | none => none
    | some call =>
      let (slot, touched, call') := sessionAdvance s ok call
      some { s.goOn i call' with
        slot := slot
        nextId := s.nextId + 1
        touched := s.touched ++ touched }

/-- The session a mount has parked and not come back for. -/
def SessionCall.parked : SessionCall → Option Session
  | .taking x => some x
  | _ => none

/-- No session is stored while a mount has yet to come back for its own, and `unmount_internal`
takes no session while a mount of another mountpoint has yet to. -/
def OneAtATime (s : Sessions) : SessionLabel → Prop
  | .advance i _ =>
    match s.calls[i]? with
    | some (.storing _) => ∀ c ∈ s.calls, c.parked = none
    | some (.unmountTaking m) => ∀ c ∈ s.calls, ∀ x ∈ c.parked, x.mountpoint = m
    | _ => True
  | _ => True

instance (s : Sessions) (l : SessionLabel) : Decidable (OneAtATime s l) := by
  unfold OneAtATime
  split
  · split <;> infer_instance
  · exact inferInstanceAs (Decidable True)

/-- What every such run keeps: what is parked belongs to the one mount that has yet to come back,
and every call works on a session of its own mountpoint. -/
structure Owned (s : Sessions) : Prop where
  slot : ∀ x ∈ s.slot, .taking x ∈ s.calls
  one : ∀ x y, .taking x ∈ s.calls → .taking y ∈ s.calls → x = y
  joining : ∀ m x, .joining m x ∈ s.calls → x.mountpoint = m
  unmounting : ∀ m x, .unmounting m x ∈ s.calls → x.mountpoint = m
  touched : ∀ t ∈ s.touched, t.session.mountpoint = t.behalf

theorem mem_goOn {s : Sessions} {i : Nat} {call : Option SessionCall} {c : SessionCall}
    (h : c ∈ (s.goOn i call).calls) : c ∈ s.calls ∨ call = some c := by
  cases call with
  | none => exact .inl (List.mem_of_mem_eraseIdx h)
  | some c' =>
    rcases List.mem_or_eq_of_mem_set h with hold | rfl
    · exact .inl hold
    · exact .inr rfl

theorem mem_goOn_of_ne {s : Sessions} {i : Nat} {call : Option SessionCall} {c d : SessionCall}
    (h : c ∈ s.calls) (hd : s.calls[i]? = some d) (hne : c ≠ d) : c ∈ (s.goOn i call).calls := by
  obtain ⟨j, hj, rfl⟩ := List.mem_iff_getElem.mp h
  have hij : i ≠ j := by
    rintro rfl
    exact hne (Option.some_inj.mp ((List.getElem?_eq_getElem hj).symm.trans hd))
  cases call with
  | none => exact List.mem_eraseIdx_iff_getElem?.mpr ⟨j, hij.symm, by simp⟩
  | some c' =>
    refine List.mem_iff_getElem.mpr ⟨j, by simpa [Sessions.goOn] using hj, ?_⟩
    simp [Sessions.goOn, List.getElem_set_ne hij]

namespace Owned

variable {s t : Sessions}

theorem of_quiet (h : Owned s) {i : Nat} {c : SessionCall} {c' : Option SessionCall}
    {touched : List Touch} (hc : s.calls[i]? = some c) (hquiet : ∀ x, c ≠ .taking x)
    (hparks : ∀ x, c' ≠ some (.taking x))
    (hjoining : ∀ m x, c' = some (.joining m x) → x.mountpoint = m)
    (hunmounting : ∀ m x, c' = some (.unmounting m x) → x.mountpoint = m)
    (htouched : ∀ u ∈ touched, u.session.mountpoint = u.behalf) {slot : Option Session}
    (hslot : ∀ x ∈ slot, x ∈ s.slot) (n : Nat) :
    Owned { s.goOn i c' with slot := slot, nextId := n, touched := s.touched ++ touched } where
  slot x hx := mem_goOn_of_ne (h.slot x (hslot x hx)) hc (fun heq ↦ hquiet x heq.symm)
  one x y hx hy :=
    h.one x y ((mem_goOn hx).resolve_right (hparks x)) ((mem_goOn hy).resolve_right (hparks y))
  joining m x hx := (mem_goOn hx).elim (h.joining m x) (hjoining m x)
  unmounting m x hx := (mem_goOn hx).elim (h.unmounting m x) (hunmounting m x)
  touched u hu := (List.mem_append.mp hu).elim (h.touched u) (htouched u)

/-- A call starts. -/
theorem start (h : Owned s) {c : SessionCall} (hparks : ∀ x, c ≠ .taking x)
    (hjoining : ∀ m x, c ≠ .joining m x) (hunmounting : ∀ m x, c ≠ .unmounting m x) :
    Owned { s with calls := s.calls ++ [c] } := by
  have hold : ∀ d, d ∈ s.calls ++ [c] → c ≠ d → d ∈ s.calls := by
    intro d hd hne
    rcases List.mem_append.mp hd with hin | hnew
    · exact hin
    · exact absurd (List.mem_singleton.mp hnew).symm hne
  exact {
    slot := fun x hx ↦ List.mem_append_left _ (h.slot x hx)
    one := fun x y hx hy ↦ h.one x y (hold _ hx (hparks x)) (hold _ hy (hparks y))
    joining := fun m x hx ↦ h.joining m x (hold _ hx (hjoining m x))
    unmounting := fun m x hx ↦ h.unmounting m x (hold _ hx (hunmounting m x))
    touched := h.touched }

/-- A mount parks its session, no other being parked. -/
theorem store (h : Owned s) {i : Nat} {x : Session} (hc : s.calls[i]? = some (.storing x))
    (hparked : ∀ c ∈ s.calls, c.parked = none) (n : Nat) :
    Owned { s.goOn i (some (.taking x)) with
      slot := some x
      nextId := n
      touched := s.touched ++ s.slot.toList.map (⟨·, .drop, x.mountpoint⟩) } := by
  have hnone : ∀ y, .taking y ∉ s.calls := fun y hy ↦ by cases hparked _ hy
  have hslot : s.slot = none := by
    cases hslot : s.slot with
    | none => rfl
    | some y => exact absurd (h.slot y hslot) (hnone y)
  have honly : ∀ y, .taking y ∈ (s.goOn i (some (.taking x))).calls → y = x := by
    intro y hy
    rcases mem_goOn hy with hold | hnew
    · exact absurd hold (hnone y)
    · cases hnew
      rfl
  obtain ⟨hi, -⟩ := List.getElem?_eq_some_iff.mp hc
  exact {
    slot := fun y hy ↦ by
      cases hy
      exact List.mem_set hi _
    one := fun y z hy hz ↦ (honly y hy).trans (honly z hz).symm
    joining := fun m y hy ↦
      h.joining m y ((@mem_goOn s i (some (.taking x)) _ hy).resolve_right (by simp))
    unmounting := fun m y hy ↦
      h.unmounting m y ((@mem_goOn s i (some (.taking x)) _ hy).resolve_right (by simp))
    touched := fun u hu ↦ by
      rw [hslot] at hu
      exact h.touched u (by simpa using hu) }

/-- A mount comes back for what is parked. -/
theorem take (h : Owned s) {i : Nat} {x : Session} (hc : s.calls[i]? = some (.taking x)) (n : Nat) :
    Owned { s.goOn i (match s.slot with
        | some y => some (.joining x.mountpoint y)
        | none => some (.waiting x.mountpoint)) with
      slot := none
      nextId := n
      touched := s.touched ++ [] } where
  slot y hy := by cases hy
  one y z hy hz := by
    refine h.one y z ((mem_goOn hy).resolve_right ?_) ((mem_goOn hz).resolve_right ?_) <;>
      split <;> simp
  joining m y hy := by
    rcases mem_goOn hy with hold | hnew
    · exact h.joining m y hold
    · split at hnew <;> cases hnew
      rename_i z hz
      rw [h.one y x (h.slot y hz) (List.mem_of_getElem? hc)]
  unmounting m y hy := by
    rcases mem_goOn hy with hold | hnew
    · exact h.unmounting m y hold
    · split at hnew <;> cases hnew
  touched u hu := h.touched u (by simpa using hu)

/-- One step. -/
theorem step {l : SessionLabel} (h : Owned s) (hguard : OneAtATime s l)
    (hstep : sessionStep l s = some t) : Owned t := by
  cases l with
  | mount m | unmountInternal m =>
    cases hstep
    exact h.start (by simp) (by simp) (by simp)
  | advance i ok =>
    simp only [sessionStep] at hstep
    split at hstep
    · cases hstep
    · next c hc =>
      simp only [OneAtATime, hc] at hguard
      cases hstep
      cases c with
      | spawning m =>
        refine h.of_quiet hc (by simp) ?_ ?_ ?_ (by simp [sessionAdvance])
          (fun _ hx ↦ hx) (s.nextId + 1)
        all_goals
          simp only [sessionAdvance]
          split <;> simp
      | storing x => exact h.store hc hguard _
      | taking x =>
        have htake := h.take hc (s.nextId + 1)
        cases hslot : s.slot <;> simpa [sessionAdvance, hslot] using htake
      | joining m x =>
        refine h.of_quiet hc (by simp) (by simp [sessionAdvance]) (by simp [sessionAdvance])
          (by simp [sessionAdvance]) ?_ (fun _ hx ↦ hx) (s.nextId + 1)
        simpa [sessionAdvance] using h.joining m x (List.mem_of_getElem? hc)
      | waiting m =>
        exact h.of_quiet hc (by simp) (by simp [sessionAdvance]) (by simp [sessionAdvance])
          (by simp [sessionAdvance]) (by simp [sessionAdvance]) (fun _ hx ↦ hx) (s.nextId + 1)
      | unmountTaking m =>
        cases hslot : s.slot with
        | none =>
          refine h.of_quiet hc (by simp) ?_ ?_ ?_ ?_ ?_ (s.nextId + 1) <;>
            simp [sessionAdvance, hslot]
        | some y =>
          refine h.of_quiet hc (by simp) ?_ ?_ ?_ ?_ ?_ (s.nextId + 1)
          all_goals simp only [sessionAdvance, hslot]
          · simp
          · simp
          · rintro m' x heq
            cases heq
            exact hguard _ (h.slot y hslot) y rfl
          · simp
          · simp
      | unmounting m x =>
        have hown := h.unmounting m x (List.mem_of_getElem? hc)
        refine h.of_quiet hc (by simp) ?_ ?_ ?_ ?_ (fun _ hx ↦ hx) (s.nextId + 1)
        · simp only [sessionAdvance]
          split <;> simp
        · simp only [sessionAdvance]
          split <;> simp
        · simp only [sessionAdvance]
          split <;> simp
        · simpa [sessionAdvance] using hown
      | fusermount m =>
        exact h.of_quiet hc (by simp) (by simp [sessionAdvance]) (by simp [sessionAdvance])
          (by simp [sessionAdvance]) (by simp [sessionAdvance]) (fun _ hx ↦ hx) (s.nextId + 1)

theorem initial : Owned .initial where
  slot := by simp [Sessions.initial]
  one := by simp [Sessions.initial]
  joining := by simp [Sessions.initial]
  unmounting := by simp [Sessions.initial]
  touched := by simp [Sessions.initial]

end Owned

/-- Mounts that park their sessions one at a time touch only their own sessions, and so do the
unmounts that do not come between another mount's two steps. -/
theorem sessions_isolated_of_run {t : Sessions}
    (hrun : GuardedRun sessionStep OneAtATime .initial t) :
    ∀ u ∈ t.touched, u.session.mountpoint = u.behalf :=
  (hrun.invariant Owned (fun _ _ _ hs hguard hstep ↦ hs.step hguard hstep) .initial).touched

/-- Two mounts one after the other. -/
theorem sessions_isolated_of_run_sample :
    ∃ t, GuardedRun sessionStep OneAtATime .initial t ∧ t.touched ≠ [] ∧
      ∀ u ∈ t.touched, u.session.mountpoint = u.behalf := by
  obtain ⟨t, ht, hne⟩ := exists_exec sessionStep (fun t ↦ t.touched ≠ [])
    [.mount ['a'], .advance 0 true, .advance 0 true, .unmountInternal ['a'], .advance 1 true,
      .advance 1 true] .initial (by decide)
  have hrun : GuardedRun sessionStep OneAtATime .initial t := guardedRun_of_exec ht (by decide)
  exact ⟨t, hrun, hne, sessions_isolated_of_run hrun⟩

/-- The second mount's store drops the session of the first, and with it its mount. -/
theorem store_drops_other_session :
    ∃ t, GuardedRun sessionStep (fun _ _ ↦ True) .initial t ∧
      ∃ u ∈ t.touched, u.deed = .drop ∧ u.session.mountpoint ≠ u.behalf :=
  exists_guardedRun sessionStep (fun _ _ ↦ True)
    (fun t ↦ ∃ u ∈ t.touched, u.deed = .drop ∧ u.session.mountpoint ≠ u.behalf)
    [.mount ['a'], .mount ['b'], .advance 0 true, .advance 1 true, .advance 0 true,
      .advance 1 true] .initial (by decide) (by decide)

end Mntrs.Mount

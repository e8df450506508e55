import Mathlib.Algebra.BigOperators.Group.Finset.Piecewise
import Mathlib.Algebra.GroupWithZero.Nat
import Mathlib.Algebra.Order.Group.Nat
import Mntrs.Base.Machine

/-!
# The memory limiter

Models `src/src/mem_limiter.rs:64-219` at the grain of its atomic operations: a reservation loads
the total, swaps it and then records its label; `release` takes its bytes out of the total and then
out of the label, `release_if_reserved` the other way round. Any number of calls is underway at
once. Labels are of any type.
-/

namespace Mntrs

open Base

variable {L : Type} [DecidableEq L]

/-- `MemoryLimiter`: a label has a counter once it is recorded. -/
structure MemoryLimiter (L : Type) where
  cap : Nat
  used : Nat
  byLabel : L → Option Nat

namespace MemoryLimiter

/-- `MemoryLimiter::new`. -/
def new (cap : Nat) : MemoryLimiter L := ⟨cap, 0, fun _ ↦ none⟩

/-- `u64::saturating_add`. -/
def saturatingAdd (m n : Nat) : Nat := min (m + n) (2 ^ 64 - 1)

/-- The counter of a label. -/
def current (m : MemoryLimiter L) (label : L) : Nat := (m.byLabel label).getD 0

/-- A new value of a label's counter. -/
def store (m : MemoryLimiter L) (label : L) (n : Nat) : MemoryLimiter L :=
  { m with byLabel := Function.update m.byLabel label (some n) }

/-- `record`: growth wraps, shrinking stops at zero. -/
def record (m : MemoryLimiter L) (label : L) (delta : Int) : MemoryLimiter L :=
  if 0 ≤ delta then m.store label ((m.current label + delta.toNat) % 2 ^ 64)
  else m.store label (m.current label - (-delta).toNat)

end MemoryLimiter

/-- A reservation, from the call that asks for it to the end of the call that gives it back:
`try_reserve` before its load, before its swap and before its record; a caller that holds it;
`release` before and after its update of the total; `release_if_reserved` before and after its
update of the label. -/
inductive LimiterPoint where
  | loading
  | swapping (current : Nat)
  | recording
  | held
  | releasing
  | unrecording
  | reclaiming
  | returning
deriving DecidableEq, Repr

/-- A reservation underway. -/
structure LimiterCall (L : Type) where
  label : L
  amount : Nat
  point : LimiterPoint
deriving DecidableEq, Repr

/-- The limiter, the reservations underway, and whether a `release_if_reserved` has answered
`false`. -/
structure LimiterRun (L : Type) where
  limiter : MemoryLimiter L
  calls : List (LimiterCall L)
  denied : Bool

/-- A new limiter. -/
def LimiterRun.start (cap : Nat) : LimiterRun L := ⟨.new cap, [], false⟩

/-- `i64::MAX`. -/
def i64Max : Nat := 2 ^ 63 - 1

/-- The next atomic operation of a call, and where the call stands then; a call that is over is
gone. -/
def LimiterCall.advance (c : LimiterCall L) (m : MemoryLimiter L) :
    Option (MemoryLimiter L × Option LimiterPoint × Bool) :=
  match c.point with
  | .loading =>
    if m.cap = 0 then
      some ({ m with used := (m.used + min c.amount i64Max) % 2 ^ 64 }, some .recording, false)
    else if m.cap < MemoryLimiter.saturatingAdd m.used c.amount then some (m, none, false)
    else some (m, some (.swapping m.used), false)
  | .swapping current =>
    if m.used = current then
      some ({ m with used := MemoryLimiter.saturatingAdd current c.amount }, some .recording, false)
    else some (m, some .loading, false)
  | .recording => some (m.record c.label (min c.amount i64Max : Nat), some .held, false)
  | .held => none
  | .releasing => some ({ m with used := m.used - c.amount }, some .unrecording, false)
  | .unrecording => some (m.record c.label (-c.amount), none, false)
  | .reclaiming =>
    match m.byLabel c.label with
    | none => some (m, none, true)
    | some current =>
      if current < c.amount then some (m, none, true)
      else some (m.store c.label (current - c.amount), some .returning, false)
  | .returning => some ({ m with used := m.used - c.amount }, none, false)

/-- A call of `try_reserve`, the next operation of a call, and the two ways to give a reservation
back. -/
inductive LimiterLabel (L : Type) where
  | tryReserve (label : L) (amount : Nat)
  | advance (i : Nat)
  | release (i : Nat)
  | releaseIfReserved (i : Nat)
deriving DecidableEq, Repr

/-- A call goes on to a point, or is over. -/
def LimiterRun.goOn (s : LimiterRun L) (i : Nat) (c : LimiterCall L)
    (point : Option LimiterPoint) : List (LimiterCall L) :=
  (point.map fun p ↦ { c with point := p }).toList ++ s.calls.eraseIdx i

/-- One step. Amounts are at most `i64::MAX`. -/
def limiterStep (l : LimiterLabel L) (s : LimiterRun L) : Option (LimiterRun L) :=
  match l with
  | .tryReserve label amount =>
    if amount ≤ i64Max then some { s with calls := ⟨label, amount, .loading⟩ :: s.calls } else none
  | .advance i => do
    let c ← s.calls[i]?
    let (limiter, point, denied) ← c.advance s.limiter
    some ⟨limiter, s.goOn i c point, s.denied || denied⟩
  | .release i => do
    let c ← s.calls[i]?
    if c.point = .held then some { s with calls := s.goOn i c (some .releasing) } else none
  | .releaseIfReserved i => do
    let c ← s.calls[i]?
    if c.point = .held then some { s with calls := s.goOn i c (some .reclaiming) } else none

/-- The total does not saturate at a swap, and the counter of a label does not wrap at a record. -/
def LimiterObeys (s : LimiterRun L) : LimiterLabel L → Prop
  | .advance i => ∀ c ∈ s.calls[i]?,
    (c.point = .swapping s.limiter.used → s.limiter.used + c.amount < 2 ^ 64) ∧
    (c.point = .recording → s.limiter.current c.label + c.amount < 2 ^ 64)
  | _ => True

/-- The total counts a call from its swap to the update that gives it back. -/
def LimiterCall.inUse (c : LimiterCall L) : Nat :=
  match c.point with
  | .recording | .held | .releasing | .reclaiming | .returning => c.amount
  | .loading | .swapping _ | .unrecording => 0

/-- The label counts it from its record. -/
def LimiterCall.recorded (c : LimiterCall L) : Nat :=
  match c.point with
  | .held | .releasing | .unrecording | .reclaiming => c.amount
  | .loading | .swapping _ | .recording | .returning => 0

/-- The bytes of a label. -/
def LimiterCall.recordedFor (label : L) (c : LimiterCall L) : Nat :=
  if c.label = label then c.recorded else 0

/-- Both counters are the sums of the calls they count. -/
structure Tallied (cap : Nat) (s : LimiterRun L) : Prop where
  total : s.limiter.used = (s.calls.map LimiterCall.inUse).sum
  label : ∀ label, s.limiter.current label = (s.calls.map (LimiterCall.recordedFor label)).sum
  entry : ∀ c ∈ s.calls, c.point = .held ∨ c.point = .reclaiming →
    (s.limiter.byLabel c.label).isSome
  small : ∀ c ∈ s.calls, c.amount ≤ i64Max
  fits : ∀ c ∈ s.calls, ∀ current, c.point = .swapping current →
    MemoryLimiter.saturatingAdd current c.amount ≤ cap
  bounded : ∀ label, s.limiter.current label < 2 ^ 64
  positive : 0 < cap ∧ s.limiter.cap = cap
  capped : s.limiter.used ≤ cap
  granted : s.denied = false

variable {cap i : Nat} {s t : LimiterRun L} {c : LimiterCall L} {m : MemoryLimiter L}

omit [DecidableEq L] in
private theorem sum_goOn (f : LimiterCall L → Nat) (hi : s.calls[i]? = some c)
    (point : Option LimiterPoint) :
    ((s.goOn i c point).map f).sum + f c =
      (s.calls.map f).sum + point.elim 0 fun p ↦ f { c with point := p } := by
  obtain ⟨hlt, hc⟩ := List.getElem?_eq_some_iff.mp hi
  have hsum := ((List.getElem_cons_eraseIdx_perm hlt).map f).sum_eq
  rw [List.map_cons, List.sum_cons, hc] at hsum
  cases point with
  | none => simp only [LimiterRun.goOn, Option.map_none, Option.toList_none, List.nil_append,
      Option.elim_none]; omega
  | some p => simp only [LimiterRun.goOn, Option.map_some, Option.toList_some, List.cons_append,
      List.nil_append, List.map_cons, List.sum_cons, Option.elim_some]; omega

omit [DecidableEq L] in
private theorem mem_goOn {point : Option LimiterPoint} {d : LimiterCall L}
    (hd : d ∈ s.goOn i c point) :
    d ∈ s.calls ∨ ∃ p, point = some p ∧ d = { c with point := p } := by
  rcases List.mem_append.mp hd with hd | hd
  · rw [Option.mem_toList, Option.map_eq_some_iff] at hd
    obtain ⟨p, hp, rfl⟩ := hd
    exact .inr ⟨p, hp, rfl⟩
  · exact .inl (List.mem_of_mem_eraseIdx hd)

/-- A call moves on and moves its bytes in the counters accordingly. -/
private theorem Tallied.goOn (h : Tallied cap s) (hi : s.calls[i]? = some c)
    {point : Option LimiterPoint} (hcap : m.cap = s.limiter.cap) (hcapped : m.used ≤ cap)
    (hused : m.used + c.inUse =
      s.limiter.used + point.elim 0 fun p ↦ LimiterCall.inUse { c with point := p })
    (hown : m.current c.label + c.recorded = s.limiter.current c.label +
      point.elim 0 fun p ↦ LimiterCall.recorded { c with point := p })
    (hother : ∀ label, label ≠ c.label → m.current label = s.limiter.current label)
    (hbounded : m.current c.label < 2 ^ 64)
    (hmono : ∀ label, (s.limiter.byLabel label).isSome → (m.byLabel label).isSome)
    (hentry : point = some .held ∨ point = some .reclaiming → (m.byLabel c.label).isSome)
    (hfits : ∀ current, point = some (.swapping current) →
      MemoryLimiter.saturatingAdd current c.amount ≤ cap) :
    Tallied cap { s with limiter := m, calls := s.goOn i c point } where
  total := by
    have := sum_goOn LimiterCall.inUse hi point
    have := h.total
    simp only
    omega
  label label := by
    have hsum := sum_goOn (LimiterCall.recordedFor label) hi point
    have hlabel := h.label label
    by_cases hl : c.label = label
    · subst hl
      simp only [LimiterCall.recordedFor, if_true] at hsum hlabel ⊢
      omega
    · simp only [LimiterCall.recordedFor, hl, if_false] at hsum hlabel ⊢
      have hzero : (point.elim 0 fun _ ↦ 0) = 0 := by cases point <;> rfl
      have := hother label (Ne.symm hl)
      omega
  entry d hd hpoint := by
    rcases mem_goOn hd with hd | ⟨p, rfl, rfl⟩
    · exact hmono _ (h.entry d hd hpoint)
    · exact hentry (by simpa using hpoint)
  small d hd := by
    rcases mem_goOn hd with hd | ⟨p, rfl, rfl⟩
    · exact h.small d hd
    · exact h.small c (List.mem_of_getElem? hi)
  fits d hd current hpoint := by
    rcases mem_goOn hd with hd | ⟨p, rfl, rfl⟩
    · exact h.fits d hd current hpoint
    · exact hfits current (by simpa using hpoint)
  bounded label := by
    by_cases hl : label = c.label
    · exact hl ▸ hbounded
    · rw [hother label hl]
      exact h.bounded label
  positive := ⟨h.positive.1, hcap.trans h.positive.2⟩
  capped := hcapped
  granted := h.granted

private theorem Tallied.inUse_le (h : Tallied cap s) (hi : s.calls[i]? = some c) :
    c.inUse ≤ s.limiter.used := by
  have := sum_goOn LimiterCall.inUse hi none
  have := h.total
  simp only [Option.elim_none] at *
  omega

private theorem Tallied.recorded_le (h : Tallied cap s) (hi : s.calls[i]? = some c) :
    c.recorded ≤ s.limiter.current c.label := by
  have hsum := sum_goOn (LimiterCall.recordedFor c.label) hi none
  have hlabel := h.label c.label
  simp only [Option.elim_none, LimiterCall.recordedFor, if_true] at hsum hlabel
  omega

theorem MemoryLimiter.current_store (m : MemoryLimiter L) (label : L) (n : Nat) (l : L) :
    (m.store label n).current l = if l = label then n else m.current l := by
  by_cases hl : l = label <;> simp [MemoryLimiter.store, MemoryLimiter.current, hl]

private theorem isSome_store (m : MemoryLimiter L) (label : L) (n : Nat) {l : L}
    (h : (m.byLabel l).isSome) : ((m.store label n).byLabel l).isSome := by
  by_cases hl : l = label <;> simp [MemoryLimiter.store, hl, h]

/-- A call moves on and leaves the counters. -/
private theorem Tallied.stay (h : Tallied cap s) (hi : s.calls[i]? = some c)
    {point : Option LimiterPoint}
    (hused : c.inUse = point.elim 0 fun p ↦ LimiterCall.inUse { c with point := p })
    (hown : c.recorded = point.elim 0 fun p ↦ LimiterCall.recorded { c with point := p })
    (hentry : point = some .reclaiming → c.point = .held) (hheld : point ≠ some .held)
    (hfits : ∀ current, point = some (.swapping current) →
      MemoryLimiter.saturatingAdd current c.amount ≤ cap) :
    Tallied cap { s with calls := s.goOn i c point } := by
  refine h.goOn hi rfl h.capped (by rw [hused]) (by rw [hown]) (fun _ _ ↦ rfl)
    (h.bounded _) (fun _ ↦ id) ?_ hfits
  rintro (hp | hp)
  · exact absurd hp hheld
  · exact h.entry c (List.mem_of_getElem? hi) (.inl (hentry hp))

/-- A call moves on and changes the counter of its label. -/
private theorem Tallied.store (h : Tallied cap s) (hi : s.calls[i]? = some c)
    {point : Option LimiterPoint} {n : Nat}
    (hused : c.inUse = point.elim 0 fun p ↦ LimiterCall.inUse { c with point := p })
    (hown : n + c.recorded = s.limiter.current c.label +
      point.elim 0 fun p ↦ LimiterCall.recorded { c with point := p })
    (hbounded : n < 2 ^ 64) (hfits : ∀ current, point ≠ some (.swapping current)) :
    Tallied cap { s with limiter := s.limiter.store c.label n, calls := s.goOn i c point } := by
  refine h.goOn hi rfl h.capped ?_ ?_ ?_ ?_ (fun _ ↦ isSome_store _ _ _) ?_
    fun current hp ↦ absurd hp (hfits current)
  · rw [hused]
    rfl
  · rw [MemoryLimiter.current_store, if_pos rfl, hown]
  · intro label hl
    rw [MemoryLimiter.current_store, if_neg hl]
  · rwa [MemoryLimiter.current_store, if_pos rfl]
  · intro
    simp [MemoryLimiter.store]

/-- An atomic operation keeps the tally, and no `release_if_reserved` is denied. -/
private theorem Tallied.advance (h : Tallied cap s) (hi : s.calls[i]? = some c)
    (hobeys : LimiterObeys s (.advance i)) {point : Option LimiterPoint} {denied : Bool}
    (hadvance : c.advance s.limiter = some (m, point, denied)) :
    denied = false ∧ Tallied cap { s with limiter := m, calls := s.goOn i c point } := by
  have hmem := List.mem_of_getElem? hi
  have hsmall := h.small c hmem
  have hmin : min c.amount i64Max = c.amount := Nat.min_eq_left hsmall
  have hinUse := h.inUse_le hi
  have hrecorded := h.recorded_le hi
  have hcapped := h.capped
  obtain ⟨hswap, hrecord⟩ := hobeys c hi
  obtain ⟨label, amount, at_⟩ := c
  cases at_ with
  | loading =>
    simp only [LimiterCall.advance, h.positive.2, h.positive.1.ne', if_false] at hadvance
    split at hadvance
    · cases hadvance
      exact ⟨rfl, h.stay hi rfl rfl nofun nofun nofun⟩
    · next hfits =>
      cases hadvance
      refine ⟨rfl, h.stay hi rfl rfl nofun nofun fun current hcurrent ↦ ?_⟩
      cases hcurrent
      exact Nat.not_lt.mp hfits
  | swapping current =>
    simp only [LimiterCall.advance] at hadvance
    split at hadvance
    · next hsame =>
      subst hsame
      cases hadvance
      have hfits := h.fits _ hmem _ rfl
      have hexact : MemoryLimiter.saturatingAdd s.limiter.used amount = s.limiter.used + amount :=
        Nat.min_eq_left (Nat.le_pred_of_lt (hswap rfl))
      refine ⟨rfl, h.goOn hi rfl hfits ?_ rfl (fun _ _ ↦ rfl) (h.bounded _) (fun _ ↦ id) nofun
        nofun⟩
      rw [hexact]
      rfl
    · cases hadvance
      exact ⟨rfl, h.stay hi rfl rfl nofun nofun nofun⟩
  | recording =>
    have hstore : s.limiter.record label amount = s.limiter.store label
        (s.limiter.current label + amount) := by
      simp only [MemoryLimiter.record, Int.natCast_nonneg, if_true, Int.toNat_natCast]
      rw [Nat.mod_eq_of_lt (hrecord rfl)]
    simp only [LimiterCall.advance, hmin, hstore, Option.some.injEq, Prod.mk.injEq] at hadvance
    obtain ⟨rfl, rfl, rfl⟩ := hadvance
    exact ⟨rfl, h.store hi rfl rfl (hrecord rfl) fun _ ↦ nofun⟩
  | held => cases hadvance
  | releasing | returning =>
    cases hadvance
    refine ⟨rfl, h.goOn hi rfl ((Nat.sub_le _ _).trans hcapped) ?_ rfl (fun _ _ ↦ rfl)
      (h.bounded _) (fun _ ↦ id) nofun nofun⟩
    exact Nat.sub_add_cancel hinUse
  | unrecording =>
    have hstore : s.limiter.record label (-amount) = s.limiter.store label
        (s.limiter.current label - amount) := by
      rcases Nat.eq_zero_or_pos amount with rfl | hpos
      · have hmod := congrArg (s.limiter.store label) (Nat.mod_eq_of_lt (h.bounded label))
        simpa [MemoryLimiter.record] using hmod
      · rw [MemoryLimiter.record, if_neg (by omega), Int.neg_neg, Int.toNat_natCast]
    simp only [LimiterCall.advance, hstore, Option.some.injEq, Prod.mk.injEq] at hadvance
    obtain ⟨rfl, rfl, rfl⟩ := hadvance
    exact ⟨rfl, h.store hi rfl (Nat.sub_add_cancel hrecorded)
      ((Nat.sub_le _ _).trans_lt (h.bounded label)) fun _ ↦ nofun⟩
  | reclaiming =>
    obtain ⟨current, hcurrent⟩ := Option.isSome_iff_exists.mp (h.entry _ hmem (.inr rfl))
    have heq : s.limiter.current label = current := by simp [MemoryLimiter.current, hcurrent]
    have hle : amount ≤ current := heq ▸ hrecorded
    simp only [LimiterCall.advance, hcurrent, Nat.not_lt.mpr hle, if_false, Option.some.injEq,
      Prod.mk.injEq] at hadvance
    obtain ⟨rfl, rfl, rfl⟩ := hadvance
    refine ⟨rfl, h.store hi rfl ?_ ((Nat.sub_le _ _).trans_lt (heq ▸ h.bounded label))
      fun _ ↦ nofun⟩
    rw [heq]
    exact Nat.sub_add_cancel hle

/-- Every step keeps the tally. -/
theorem Tallied.step {l : LimiterLabel L} (h : Tallied cap s) (hobeys : LimiterObeys s l)
    (hstep : limiterStep l s = some t) : Tallied cap t := by
  cases l with
  | tryReserve label amount =>
    simp only [limiterStep] at hstep
    split at hstep <;> cases hstep
    rename_i hsmall
    refine { h with total := ?_, label := ?_, entry := ?_, small := ?_, fits := ?_ }
    · simpa [LimiterCall.inUse] using h.total
    · simpa [LimiterCall.recordedFor, LimiterCall.recorded] using h.label
    · simpa using h.entry
    · simpa [hsmall] using h.small
    · simpa using h.fits
  | advance i =>
    obtain ⟨c, hi, hstep⟩ := Option.bind_eq_some_iff.mp hstep
    obtain ⟨⟨m, point, denied⟩, hadvance, hstep⟩ := Option.bind_eq_some_iff.mp hstep
    cases hstep
    obtain ⟨rfl, h⟩ := h.advance hi hobeys hadvance
    simpa using h
  | release i | releaseIfReserved i =>
    obtain ⟨c, hi, hstep⟩ := Option.bind_eq_some_iff.mp hstep
    split at hstep <;> cases hstep
    rename_i hheld
    refine h.stay hi ?_ ?_ (fun _ ↦ hheld) nofun nofun <;>
      simp [LimiterCall.inUse, LimiterCall.recorded, hheld]

/-- The counters of all labels together. -/
private theorem sum_current {labels : Finset L} (calls : List (LimiterCall L))
    (h : ∀ c ∈ calls, c.label ∈ labels) :
    ∑ label ∈ labels, (calls.map (LimiterCall.recordedFor label)).sum =
      (calls.map LimiterCall.recorded).sum := by
  induction calls with
  | nil => simp
  | cons c calls ih =>
    rw [List.forall_mem_cons] at h
    simp only [List.map_cons, List.sum_cons, Finset.sum_add_distrib, ih h.2,
      LimiterCall.recordedFor, Finset.sum_ite_eq, h.1, if_true]

/-- **The memory budget**, in every run in which no total saturates and no counter of a label
wraps: the total stays within the cap and no `release_if_reserved` is denied; when no call is
underway the total, the counter of each label and all counters together are the bytes held; and an
operation of a `try_reserve` that does not get its bytes changes nothing. -/
theorem memory_budget_of_run (hcap : 0 < cap)
    (hrun : GuardedRun limiterStep LimiterObeys (.start cap) s) :
    s.limiter.used ≤ cap ∧ s.denied = false ∧
    ((∀ c ∈ s.calls, c.point = .held) →
      s.limiter.used = (s.calls.map LimiterCall.amount).sum ∧
      (∀ label, s.limiter.current label =
        (s.calls.map fun c ↦ if c.label = label then c.amount else 0).sum) ∧
      ∀ labels : Finset L, (∀ label, label ∉ labels → s.limiter.byLabel label = none) →
        ∑ label ∈ labels, s.limiter.current label = (s.calls.map LimiterCall.amount).sum) ∧
    ∀ i c t, s.calls[i]? = some c → limiterStep (.advance i) s = some t →
      (c.point = .loading ∨ ∃ current, c.point = .swapping current ∧ s.limiter.used ≠ current) →
      t.limiter = s.limiter := by
  have hstart : Tallied cap (.start cap : LimiterRun L) :=
    ⟨rfl, fun _ ↦ rfl, nofun, nofun, nofun, fun _ ↦ Nat.two_pow_pos 64, ⟨hcap, rfl⟩,
      Nat.zero_le _, rfl⟩
  have h := hrun.invariant (Tallied cap) (fun _ _ _ h hobeys hstep ↦ h.step hobeys hstep) hstart
  refine ⟨h.capped, h.granted, fun hheld ↦ ?_, fun i c t hi hstep hpoint ↦ ?_⟩
  · have hinUse : s.calls.map LimiterCall.inUse = s.calls.map LimiterCall.amount :=
      List.map_congr_left fun c hc ↦ by simp [LimiterCall.inUse, hheld c hc]
    have hrecorded : s.calls.map LimiterCall.recorded = s.calls.map LimiterCall.amount :=
      List.map_congr_left fun c hc ↦ by simp [LimiterCall.recorded, hheld c hc]
    refine ⟨hinUse ▸ h.total, fun label ↦ ?_, fun labels hlabels ↦ ?_⟩
    · rw [h.label label]
      refine congrArg _ (List.map_congr_left fun c hc ↦ ?_)
      simp [LimiterCall.recordedFor, LimiterCall.recorded, hheld c hc]
    · rw [← hrecorded, ← sum_current s.calls fun c hc ↦ ?_]
      · exact Finset.sum_congr rfl fun label _ ↦ h.label label
      · by_contra hnot
        have hsome := h.entry c hc (.inl (hheld c hc))
        rw [hlabels c.label hnot] at hsome
        cases hsome
  · obtain ⟨c', hi', hstep⟩ := Option.bind_eq_some_iff.mp hstep
    cases hi.symm.trans hi'
    obtain ⟨⟨m, point, denied⟩, hadvance, hstep⟩ := Option.bind_eq_some_iff.mp hstep
    cases hstep
    rcases hpoint with hpoint | ⟨current, hpoint, hne⟩
    · simp only [LimiterCall.advance, hpoint, h.positive.2, hcap.ne', if_false] at hadvance
      split at hadvance <;> cases hadvance <;> rfl
    · simp only [LimiterCall.advance, hpoint, hne, if_false] at hadvance
      cases hadvance
      rfl

instance (s : LimiterRun L) (l : LimiterLabel L) : Decidable (LimiterObeys s l) := by
  unfold LimiterObeys
  split <;> infer_instance

/-- A reservation of one label is given back while one of another label is made, whose first swap
fails. -/
theorem memory_budget_of_run_sample : ∃ s : LimiterRun Bool,
    GuardedRun limiterStep LimiterObeys (.start 8) s ∧ s.calls = [⟨true, 5, .held⟩] ∧
    s.limiter.used = 5 ∧ s.limiter.current true = 5 ∧ s.limiter.current false = 0 ∧
    s.denied = false := by
  obtain ⟨s, hrun, hcalls⟩ := exists_guardedRun limiterStep LimiterObeys
    (fun s : LimiterRun Bool ↦ s.calls = [⟨true, 5, .held⟩])
    [.tryReserve false 3, .advance 0, .advance 0, .advance 0, .releaseIfReserved 0,
      .tryReserve true 5, .advance 0, .advance 1, .advance 0, .advance 0, .advance 0, .advance 0,
      .advance 0] (.start 8) (by decide) (by decide)
  have h := memory_budget_of_run (by decide) hrun
  obtain ⟨htotal, hlabel, -⟩ := h.2.2.1 (by simp [hcalls])
  refine ⟨s, hrun, hcalls, ?_, ?_, ?_, h.2.1⟩
  · simpa [hcalls] using htotal
  · simpa [hcalls] using hlabel true
  · simpa [hcalls] using hlabel false

/-- With the largest cap the addition saturates, and the last reservation is granted: `2 ^ 64`
bytes are held, the total says one less, and the counter of the label has wrapped to zero. -/
theorem saturated_total_undercounts : ∃ s : LimiterRun Unit, exec limiterStep
    [.tryReserve () i64Max, .advance 0, .advance 0, .advance 0, .tryReserve () i64Max, .advance 0,
      .advance 0, .advance 0, .tryReserve () 2, .advance 0, .advance 0, .advance 0]
    (.start (2 ^ 64 - 1)) = some s ∧
    s.calls = [⟨(), 2, .held⟩, ⟨(), i64Max, .held⟩, ⟨(), i64Max, .held⟩] ∧
    (s.calls.map LimiterCall.amount).sum = 2 ^ 64 ∧ s.limiter.used = 2 ^ 64 - 1 ∧
    s.limiter.current () = 0 :=
  exists_exec limiterStep _ _ _ (by decide)

end Mntrs

import Mntrs.Fs.Xattr
import Mntrs.Writeback.OffModeDelivery

/-!
# Extended attributes next to writes and uploads

A `setxattr` or `removexattr` writes back the bytes it has read, and an upload writes its object
without metadata (`src/src/lib.rs:8086-8142,8176-8238`, `src/src/writeback.rs:693-736`). An upload
that lands between the read and the write of such a call is undone by the write, and one that
lands after the call drops the attribute. When uploads of the path land only while it has no
attributes and no call holds its bytes, and the calls on it come one after the other, contents and
attributes do not disturb each other.
-/

namespace Mntrs

open Base

/-- The machine with the user metadata of the backend's objects and the attribute calls in
progress. `granted` is a ghost: the map that the successful calls made, in their order. -/
structure XattrSys where
  sys : Sys
  userMeta : Path → UserMeta
  calls : List XattrCall
  granted : Path → UserMeta

/-- A step of the machine, the start of a call, and its three requests to the backend. `fresh` is
the metadata of the objects that requests not modelled further have put. -/
inductive XattrLabel where
  | mount (l : Label) (fresh : Path → UserMeta)
  | setxattr (ino : Ino) (name : Path) (value : Bytes)
  | removexattr (ino : Ino) (name : Path)
  | stat (i : Nat) (failure : Option ErrorKind)
  | read (i : Nat) (failure : Option ErrorKind)
  | write (i : Nat) (outcome : PutOutcome)

/-- The put is on the backend. -/
def PutOutcome.reaches : PutOutcome → Bool
  | .ok => true
  | .failed landed => landed

/-- The step puts the object of the path without metadata: an upload, or a write under direct
I/O. -/
def putsPlain (cfg : Config) (s : Sys) (p : Path) : Label → Bool
  | .attempt i outcome =>
    outcome.reaches && decide (s.fs.writeback.running[i]?.map (·.task.remotePath) = some p)
  | .write ino fh offset data env =>
    match writeBegin cfg s.fs ino fh offset data env with
    | .inl (.ok _, _) => decide ((writeTarget s.fs fh).map Prod.fst = some p)
    | _ => false
  | _ => false

/-- The metadata after a step of the machine. -/
def metaAfter (cfg : Config) (x : XattrSys) (l : Label) (fresh : Path → UserMeta) (t : Sys)
    (p : Path) : UserMeta :=
  if putsPlain cfg x.sys p l then ∅
  else if t.fs.backend p = x.sys.fs.backend p then x.userMeta p
  else fresh p

namespace XattrSys

/-- A call starts, unless it fails its checks. -/
def start (x : XattrSys) : Except IoError XattrCall → XattrSys
  | .ok c => { x with calls := x.calls ++ [c] }
  | .error _ => x

/-- A call goes on to its next request, or returns its error. -/
def resume (x : XattrSys) (i : Nat) : Except IoError XattrCall → XattrSys
  | .ok c => { x with calls := x.calls.set i c }
  | .error _ => { x with calls := x.calls.eraseIdx i }

/-- The write of a call. -/
def write (x : XattrSys) (i : Nat) (c : XattrCall) (map : UserMeta) (bytes : Bytes) :
    PutOutcome → XattrSys
  | .ok => {
      sys := { x.sys with fs := xattrFinish (xattrPut x.sys.fs c bytes) c }
      userMeta := Function.update x.userMeta c.path map
      calls := x.calls.eraseIdx i
      granted := Function.update x.granted c.path (c.change (x.granted c.path)) }
  | .failed true =>
    { x with
      sys := { x.sys with fs := xattrPut x.sys.fs c bytes }
      userMeta := Function.update x.userMeta c.path map
      calls := x.calls.eraseIdx i }
  | .failed false => { x with calls := x.calls.eraseIdx i }

end XattrSys

/-- One step of the machine with its attribute calls; `metadata` is the `--metadata` switch. -/
def xattrStep (cfg : Config) (metadata : Bool) : XattrLabel → XattrSys → Option XattrSys
  | .mount l fresh, x =>
    match step cfg l x.sys with
    | some t => some { x with sys := t, userMeta := metaAfter cfg x l fresh t }
    | none => none
  | .setxattr ino name value, x =>
    some (x.start (setxattr cfg metadata x.sys.fs ino name value))
  | .removexattr ino name, x => some (x.start (removexattr cfg metadata x.sys.fs ino name))
  | .stat i failure, x =>
    match x.calls[i]? with
    | some c =>
      match c.stage with
      | .stat => some (x.resume i (xattrStat x.sys.fs x.userMeta c failure))
      | _ => none
    | none => none
  | .read i failure, x =>
    match x.calls[i]? with
    | some c =>
      match c.stage with
      | .read map => some (x.resume i (xattrRead x.sys.fs c map failure))
      | _ => none
    | none => none
  | .write i outcome, x =>
    match x.calls[i]? with
    | some c =>
      match c.stage with
      | .write map bytes => some (x.write i c map bytes outcome)
      | _ => none
    | none => none

/-! ### The contents on their own -/

/-- The condition under which writes reach the backend in the mode of the mount. -/
def DeliveryObeys (cfg : Config) (p : Path) (b : BufId) (s : Sys) (l : Label) : Prop :=
  if cfg.cacheMode.diskWriteBuffer then Obeys cfg p delivery s l
  else OffModeObeys cfg p b (· = .ok) s l

/-- A path before its first write, in the mode of the mount. -/
def DeliveryStart (cfg : Config) (p : Path) (b : BufId) (s : Sys) : Prop :=
  if cfg.cacheMode.diskWriteBuffer then FreshPath p s else FreshBuffer p b s

/-- The latest bytes of the path are on their way to the backend, or there. -/
structure InDelivery (cfg : Config) (p : Path) (b : BufId) (s : Sys) : Prop where
  disk : cfg.cacheMode.diskWriteBuffer = true →
    Delivering (cfg.writeBufferPath p) (pathView cfg p s)
  offMode : cfg.cacheMode.diskWriteBuffer = false → OffModeHanding b false (offModeView p b s)

section

variable {cfg : Config} {p : Path} {b : BufId} {s t : Sys} {l : Label}

theorem DeliveryStart.inDelivery (h : DeliveryStart cfg p b s) : InDelivery cfg p b s := by
  unfold DeliveryStart at h
  constructor
  · intro hmode
    rw [if_pos hmode] at h
    exact h.delivering
  · intro hmode
    rw [if_neg (by simp [hmode])] at h
    exact h.handing false

/-- A step that meets the condition keeps the delivery going. -/
theorem InDelivery.step (h : InDelivery cfg p b s) (hdirect : cfg.directIo = false)
    (hobeys : DeliveryObeys cfg p b s l) (hstep : step cfg l s = some t) :
    InDelivery cfg p b t := by
  unfold DeliveryObeys at hobeys
  constructor
  · intro hmode
    rw [if_pos hmode] at hobeys
    have hsound := (h.disk hmode).sound
    exact (h.disk hmode).step (pathStep_of_step hsound hmode hdirect hobeys hstep)
  · intro hmode
    rw [if_neg (by simp [hmode])] at hobeys
    have hsound := (h.offMode hmode).sound
    apply (h.offMode hmode).step (offModeStep_of_step hsound hmode hdirect hobeys hstep)
    · intro reached hput
      cases hput
    · intro hgave
      cases hgave

/-- The delivery depends on the objects of other paths and on cached attributes in nothing. -/
theorem InDelivery.congr {backend : Path → Option Bytes} {attrs : Path → Option AttrEntry}
    (h : InDelivery cfg p b s) (hsame : backend p = s.fs.backend p) :
    InDelivery cfg p b { s with fs := { s.fs with backend := backend, attrCache := attrs } } := by
  constructor
  · intro hmode
    have hview : pathView cfg p
        { s with fs := { s.fs with backend := backend, attrCache := attrs } } =
          pathView cfg p s := by
      simp only [pathView, hsame]
      rfl
    rw [hview]
    exact h.disk hmode
  · intro hmode
    have hview : offModeView p b
        { s with fs := { s.fs with backend := backend, attrCache := attrs } } =
          offModeView p b s := by
      simp only [offModeView, hsame]
      rfl
    rw [hview]
    exact h.offMode hmode

/-- What is delivered when the path is quiet is on the backend. -/
theorem InDelivery.object_of_quiescent {w : Bytes} (h : InDelivery cfg p b s)
    (hquiet : Quiescent p s) (hw : s.written p = some w) : s.fs.backend p = some w := by
  cases hmode : cfg.cacheMode.diskWriteBuffer with
  | true => exact (h.disk hmode).object_of_quiescent hquiet hw
  | false => exact (h.offMode hmode).object_of_quiescent hquiet hw

/-- Of the steps of a path only the puts of its uploads change its object. -/
theorem backend_of_ownStep (hdirect : cfg.directIo = false) (hown : OwnStep p s l)
    (hputs : putsPlain cfg s p l = false) (hstep : step cfg l s = some t) :
    t.fs.backend p = s.fs.backend p := by
  cases l with
  | write ino fh offset data env =>
    obtain ⟨hidle, hstart⟩ := startCall_of_idle hstep
    simp only [startCall] at hstart
    split at hstart
    · next hbegin =>
      obtain ⟨backend, hfs, hkept⟩ := writeBegin_frame hbegin
      cases hstart
      rw [hfs, hkept hdirect]
    · cases hstart
      rfl
  | flush ino fh env =>
    obtain ⟨hidle, hstart⟩ := startCall_of_idle hstep
    simp only [startCall] at hstart
    split at hstart <;> cases hstart <;> rfl
  | release ino fh env =>
    obtain ⟨hidle, hstart⟩ := startCall_of_idle hstep
    simp only [startCall] at hstart
    split at hstart
    · cases hstart
      rfl
    · cases hstart
      rw [releaseDrop_frame]
    · cases hstart
      rfl
  | fuse => rw [(stepEffect_continueCall hstep).2]
  | recv =>
    obtain ⟨fs, hrecv, rfl⟩ := exists_workerStep hstep
    simp only [workerStep, workerRecv] at hrecv
    split at hrecv <;> cases hrecv
    rfl
  | dequeue i =>
    obtain ⟨fs, hdequeue, rfl⟩ := exists_workerStep hstep
    simp only [workerStep, workerDequeue] at hdequeue
    split at hdequeue
    · cases hdequeue
    · split at hdequeue <;> cases hdequeue <;> rfl
  | attempt i outcome =>
    obtain ⟨fs, hattempt, rfl⟩ := exists_workerStep hstep
    have hreaches : outcome.reaches = false := by
      simpa [putsPlain, show s.fs.writeback.running[i]?.map (·.task.remotePath) = some p from hown]
        using hputs
    obtain ⟨u, n, -, -, heffect⟩ := attempted hattempt
    cases heffect with
    | put => cases hreaches
    | _ reached =>
      obtain rfl : reached = false := hreaches
      rfl
  | upload i =>
    obtain ⟨fs, hupload, rfl⟩ := exists_workerStep hstep
    obtain ⟨_, _, _, _, _, -, -, rfl⟩ := uploadStep_frame hupload
    rfl
  | dropBlocks =>
    obtain ⟨fs, hdrop, rfl⟩ := exists_workerStep hstep
    simp only [workerStep, workerDropBlocks] at hdrop
    split at hdrop <;> cases hdrop
    rw [dropBlockCacheForPath_frame]
  | unlink parent name env | forget ino nlookup | recover n unreadable | other fs
  | pool i failure now | pump l => cases hown

theorem DeliveryObeys.backend_eq (hobeys : DeliveryObeys cfg p b s l)
    (hdirect : cfg.directIo = false) (hputs : putsPlain cfg s p l = false)
    (hstep : Mntrs.step cfg l s = some t) : t.fs.backend p = s.fs.backend p := by
  unfold DeliveryObeys at hobeys
  split at hobeys
  · rcases hobeys with ⟨hown, -⟩ | hsame
    · exact backend_of_ownStep hdirect hown hputs hstep
    · exact congrArg PathView.object (hsame t hstep)
  · rcases hobeys with ⟨hown, -⟩ | hsame
    · exact backend_of_ownStep hdirect hown hputs hstep
    · exact congrArg OffModeView.object (hsame t hstep)

end

/-! ### Contents and attributes together -/

/-- The call has asked for the metadata it will change. -/
def XattrCall.hasMap (c : XattrCall) : Bool :=
  match c.stage with
  | .stat => false
  | _ => true

/-- The call holds the bytes it will write back. -/
def XattrCall.hasBytes (c : XattrCall) : Bool :=
  match c.stage with
  | .write _ _ => true
  | _ => false

/-- The condition on the steps: those of the machine keep to the delivery, a put of the path lands
only while its object has no metadata and no call holds its bytes, and a call writes while no other
call on the path has its map. A failed write of a call does not reach the backend. -/
def XattrObeys (cfg : Config) (p : Path) (b : BufId) (x : XattrSys) : XattrLabel → Prop
  | .mount l _ =>
    DeliveryObeys cfg p b x.sys l ∧
      (putsPlain cfg x.sys p l = true →
        x.userMeta p = ∅ ∧ ∀ c ∈ x.calls, c.path = p → c.hasBytes = false)
  | .write i outcome =>
    outcome ≠ .failed true ∧
      ∀ c ∈ x.calls[i]?, c.path = p → ∀ c' ∈ x.calls.eraseIdx i, c'.path = p → c'.hasMap = false
  | _ => True

/-- What a call holds is up to date: its map is the one the successful calls made with its own
change, and its bytes are those of the object. -/
def XattrCall.Current (granted : UserMeta) (object : Option Bytes) (c : XattrCall) : Prop :=
  match c.stage with
  | .stat => True
  | .read map => map = c.change granted
  | .write map bytes => map = c.change granted ∧ object = some bytes

/-- The latest bytes are in delivery, the object has the metadata the calls made, and what the
calls in progress hold is up to date. -/
structure XattrAccount (cfg : Config) (p : Path) (b : BufId) (x : XattrSys) : Prop where
  contents : InDelivery cfg p b x.sys
  attributes : x.userMeta p = x.granted p
  current : ∀ c ∈ x.calls, c.path = p → c.Current (x.granted p) (x.sys.fs.backend p)

variable {c : XattrCall} {granted : UserMeta} {object : Option Bytes} {r : Except IoError XattrCall}
  {failure : Option ErrorKind}

section

variable {cfg : Config} {p : Path} {b : BufId} {x y : XattrSys}

private theorem XattrCall.current_of_no_map (h : c.hasMap = false) : c.Current granted object := by
  unfold XattrCall.hasMap at h
  unfold XattrCall.Current
  split at h
  · next hstage => simp [hstage]
  · cases h

private theorem XattrCall.Current.of_no_bytes {object' : Option Bytes}
    (h : c.Current granted object) (hbytes : c.hasBytes = false) : c.Current granted object' := by
  unfold XattrCall.hasBytes at hbytes
  unfold XattrCall.Current at h ⊢
  cases hstage : c.stage with
  | stat => trivial
  | read map => simpa [hstage] using h
  | write map bytes => simp [hstage] at hbytes

variable (h : XattrAccount cfg p b x)
include h

/-- A step of the machine keeps the account. -/
theorem XattrAccount.mount {l : Label} {t : Sys} (hdirect : cfg.directIo = false)
    (fresh : Path → UserMeta) (hobeys : XattrObeys cfg p b x (.mount l fresh))
    (hstep : Mntrs.step cfg l x.sys = some t) :
    XattrAccount cfg p b { x with sys := t, userMeta := metaAfter cfg x l fresh t } := by
  obtain ⟨hdelivery, hputs⟩ := hobeys
  have hcontents := h.contents.step hdirect hdelivery hstep
  cases hplain : putsPlain cfg x.sys p l with
  | true =>
    obtain ⟨hempty, hbytes⟩ := hputs hplain
    refine ⟨hcontents, ?_, ?_⟩
    · -- the put drops the metadata, and there was none
      simp only [metaAfter, hplain, if_true]
      rw [← h.attributes, hempty]
    · intro c hc hpath
      exact (h.current c hc hpath).of_no_bytes (hbytes c hc hpath)
  | false =>
    have hobject := hdelivery.backend_eq hdirect hplain hstep
    refine ⟨hcontents, ?_, ?_⟩
    · simp only [metaAfter, hplain, hobject, Bool.false_eq_true, if_false, if_true]
      exact h.attributes
    · intro c hc hpath
      rw [hobject]
      exact h.current c hc hpath

/-- A call that starts has nothing in hand. -/
theorem XattrAccount.start (hr : ∀ c, r = .ok c → c.stage = .stat) :
    XattrAccount cfg p b (x.start r) := by
  cases r with
  | error e => exact h
  | ok c =>
    refine ⟨h.contents, h.attributes, ?_⟩
    intro c' hc' hpath
    rcases List.mem_append.mp hc' with hold | hnew
    · exact h.current c' hold hpath
    · rw [List.mem_singleton.mp hnew]
      simp [XattrCall.Current, hr c rfl]

/-- A call that goes on with something up to date in hand, or returns, keeps the account. -/
theorem XattrAccount.resume (i : Nat)
    (hr : ∀ c, r = .ok c → c.path = p → c.Current (x.granted p) (x.sys.fs.backend p)) :
    XattrAccount cfg p b (x.resume i r) := by
  cases r with
  | error e =>
    exact ⟨h.contents, h.attributes, fun c hc ↦ h.current c (List.mem_of_mem_eraseIdx hc)⟩
  | ok c =>
    refine ⟨h.contents, h.attributes, ?_⟩
    intro c' hc' hpath
    rcases List.mem_or_eq_of_mem_set hc' with hold | rfl
    · exact h.current c' hold hpath
    · exact hr c' rfl hpath

private theorem XattrAccount.stat {c' : XattrCall}
    (hstat : xattrStat x.sys.fs x.userMeta c failure = .ok c') (hpath : c'.path = p) :
    c'.Current (x.granted p) (x.sys.fs.backend p) := by
  unfold xattrStat at hstat
  split at hstat
  · cases hstat
  · cases hstat
  · split at hstat <;> cases hstat
    have hc : c.path = p := hpath
    simp only [XattrCall.Current, hc, h.attributes]
    rfl

private theorem XattrAccount.read {c' : XattrCall} {map : UserMeta} (hc : c ∈ x.calls)
    (hstage : c.stage = .read map) (hread : xattrRead x.sys.fs c map failure = .ok c')
    (hpath : c'.path = p) : c'.Current (x.granted p) (x.sys.fs.backend p) := by
  unfold xattrRead at hread
  split at hread <;> cases hread
  rename_i hobject
  have hcpath : c.path = p := hpath
  have hmap := h.current c hc hcpath
  simp only [XattrCall.Current, hstage] at hmap
  rw [hcpath] at hobject
  exact ⟨hmap, hobject⟩

private theorem XattrAccount.write_of_ne (hpath : c.path ≠ p) (i : Nat) (map : UserMeta)
    (bytes : Bytes) (outcome : PutOutcome) :
    XattrAccount cfg p b (x.write i c map bytes outcome) := by
  have hobject : Function.update x.sys.fs.backend c.path (some bytes) p = x.sys.fs.backend p :=
    Function.update_of_ne (Ne.symm hpath) _ _
  have hmeta : Function.update x.userMeta c.path map p = x.userMeta p :=
    Function.update_of_ne (Ne.symm hpath) _ _
  have hcalls : ∀ c' ∈ x.calls.eraseIdx i, c'.path = p →
      c'.Current (x.granted p) (x.sys.fs.backend p) :=
    fun c' hc' ↦ h.current c' (List.mem_of_mem_eraseIdx hc')
  cases outcome with
  | ok =>
    have hgranted : Function.update x.granted c.path (c.change (x.granted c.path)) p =
        x.granted p := Function.update_of_ne (Ne.symm hpath) _ _
    refine ⟨h.contents.congr hobject, ?_, ?_⟩
    · simp only [XattrSys.write, hmeta, hgranted]
      exact h.attributes
    · simp only [XattrSys.write, xattrFinish, xattrPut, hobject, hgranted]
      exact hcalls
  | failed landed =>
    cases landed with
    | true =>
      refine ⟨h.contents.congr hobject, hmeta.trans h.attributes, ?_⟩
      simp only [XattrSys.write, xattrPut, hobject]
      exact hcalls
    | false => exact ⟨h.contents, h.attributes, hcalls⟩

/-- The write of a call on the path puts the bytes that are there, with the map of the calls. -/
private theorem XattrAccount.write {i : Nat} {map : UserMeta} {bytes : Bytes}
    {outcome : PutOutcome} (hpath : c.path = p)
    (hcurrent : map = c.change (x.granted p) ∧ x.sys.fs.backend p = some bytes)
    (hreaches : outcome ≠ .failed true)
    (halone : ∀ c' ∈ x.calls.eraseIdx i, c'.path = p → c'.hasMap = false) :
    XattrAccount cfg p b (x.write i c map bytes outcome) := by
  obtain ⟨hmap, hbytes⟩ := hcurrent
  cases outcome with
  | ok =>
    refine ⟨h.contents.congr ?_, ?_, ?_⟩
    · simp only [xattrPut]
      rw [hpath, Function.update_self, hbytes]
    · simp only [XattrSys.write]
      rw [hpath, Function.update_self, Function.update_self, hmap]
    · intro c' hc' hpath'
      exact XattrCall.current_of_no_map (halone c' hc' hpath')
  | failed landed =>
    cases landed with
    | true => exact absurd rfl hreaches
    | false =>
      exact ⟨h.contents, h.attributes, fun c' hc' ↦ h.current c' (List.mem_of_mem_eraseIdx hc')⟩

/-- One step keeps the account. -/
theorem XattrAccount.step {metadata : Bool} {l : XattrLabel} (hdirect : cfg.directIo = false)
    (hobeys : XattrObeys cfg p b x l) (hstep : xattrStep cfg metadata l x = some y) :
    XattrAccount cfg p b y := by
  cases l with
  | mount l fresh =>
    simp only [xattrStep] at hstep
    split at hstep <;> cases hstep
    rename_i t ht
    exact h.mount hdirect fresh hobeys ht
  | setxattr ino name value =>
    cases hstep
    refine h.start (fun c hc ↦ ?_)
    obtain ⟨_, _, -, rfl⟩ := setxattr_ok hc
    rfl
  | removexattr ino name =>
    cases hstep
    refine h.start (fun c hc ↦ ?_)
    obtain ⟨_, _, -, rfl⟩ := removexattr_ok hc
    rfl
  | stat i failure =>
    simp only [xattrStep] at hstep
    split at hstep
    · split at hstep <;> cases hstep
      exact h.resume i (fun _ hstat hpath ↦ h.stat hstat hpath)
    · cases hstep
  | read i failure =>
    simp only [xattrStep] at hstep
    split at hstep
    · next c hc =>
      split at hstep <;> cases hstep
      rename_i map hstage
      have hmem := List.mem_of_getElem? hc
      exact h.resume i (fun _ hread hpath ↦ h.read hmem hstage hread hpath)
    · cases hstep
  | write i outcome =>
    simp only [xattrStep] at hstep
    split at hstep
    · next c hc =>
      split at hstep <;> cases hstep
      rename_i map bytes hstage
      by_cases hpath : c.path = p
      · have hcurrent := h.current c (List.mem_of_getElem? hc) hpath
        simp only [XattrCall.Current, hstage] at hcurrent
        exact h.write hpath hcurrent hobeys.1 (hobeys.2 c hc hpath)
      · exact h.write_of_ne hpath i map bytes outcome
    · cases hstep

end

/-- Along every run of writes, flushes, uploads and attribute calls whose steps meet the condition,
whenever the path is quiet, the backend holds the bytes of the last successful write and the object
has the metadata that the successful attribute calls made of what it had at the start. -/
theorem contents_and_attributes_kept {cfg : Config} {metadata : Bool} {p : Path} {b : BufId}
    {x y : XattrSys} (hdirect : cfg.directIo = false) (hstart : DeliveryStart cfg p b x.sys)
    (hgranted : x.granted = x.userMeta) (hcalls : x.calls = [])
    (hrun : GuardedRun (xattrStep cfg metadata) (XattrObeys cfg p b) x y)
    (hquiet : Quiescent p y.sys) :
    (∀ w, y.sys.written p = some w → y.sys.fs.backend p = some w) ∧
      y.userMeta p = y.granted p := by
  have hinit : XattrAccount cfg p b x := by
    refine ⟨hstart.inDelivery, by rw [hgranted], ?_⟩
    simp [hcalls]
  have haccount := hrun.invariant (XattrAccount cfg p b)
    (fun _ _ _ h hobeys hstep ↦ h.step hdirect hobeys hstep) hinit
  exact ⟨fun w hw ↦ haccount.contents.object_of_quiescent hquiet hw, haccount.attributes⟩

/-- The path's own steps in a disk-buffered mode, with attribute calls one after the other. -/
def OwnXattrStep (cfg : Config) (p : Path) (x : XattrSys) : XattrLabel → Prop
  | .mount l _ => OwnStep p x.sys l ∧ Careful cfg p delivery x.sys l
  | .setxattr .. | .removexattr .. => x.calls.isEmpty = true
  | .write _ outcome => outcome = .ok ∧ x.calls.length = 1
  | _ => True

instance OwnXattrStep.decidable (cfg : Config) (p : Path) (x : XattrSys) :
    ∀ l, Decidable (OwnXattrStep cfg p x l)
  | .mount _ _ => inferInstanceAs (Decidable (_ ∧ _))
  | .setxattr .. | .removexattr .. => inferInstanceAs (Decidable (_ = _))
  | .write _ _ => inferInstanceAs (Decidable (_ ∧ _))
  | .stat _ _ | .read _ _ => isTrue trivial

/-- No put lands on an object with metadata or under a call that holds its bytes. -/
def PutsApart (cfg : Config) (p : Path) (x : XattrSys) : XattrLabel → Prop
  | .mount l _ => putsPlain cfg x.sys p l = true →
      (x.userMeta p).entries = [] ∧ ∀ c ∈ x.calls, c.path = p → c.hasBytes = false
  | _ => True

instance PutsApart.decidable (cfg : Config) (p : Path) (x : XattrSys) :
    ∀ l, Decidable (PutsApart cfg p x l)
  | .mount _ _ => inferInstanceAs (Decidable (_ → _ ∧ ∀ c ∈ x.calls, _))
  | .setxattr .. | .removexattr .. | .write _ _ | .stat _ _ | .read _ _ => isTrue trivial

/-- The mount that has just opened `a`, with no metadata anywhere. -/
def attributed (cfg : Config) : XattrSys := ⟨freshlyOpened cfg, fun _ ↦ ∅, [], fun _ ↦ ∅⟩

/-- Steps of the machine, where every object put has no metadata. -/
def ofMount (ls : List Label) : List XattrLabel := ls.map (.mount · (fun _ ↦ ∅))

/-- The start of `setxattr` of `user.k` to `v`, its `stat` and its read. -/
def setxattrBegun : List XattrLabel :=
  [.setxattr 2 "user.k".toList [118], .stat 0 none, .read 0 none]

/-- Its write. -/
def setxattrWritten : List XattrLabel := [.write 0 .ok]

/-- A write, its flush and its upload, an attribute set, and the release of the handle. -/
theorem contents_and_attributes_kept_sample :
    ∃ y, GuardedRun (xattrStep (.plain .writes) true) (XattrObeys (.plain .writes) ['a'] 0)
        (attributed (.plain .writes)) y ∧ Quiescent ['a'] y.sys ∧
      (y.granted ['a']).lookup ['k'] = some [118] ∧ y.sys.written ['a'] = some [7, 7] ∧
      y.sys.fs.backend ['a'] = some [7, 7] ∧ y.userMeta ['a'] = y.granted ['a'] := by
  obtain ⟨y, hrun, hquiet, hset, hw⟩ :=
    exists_guardedRun (xattrStep (.plain .writes) true)
      (fun x l ↦ OwnXattrStep (.plain .writes) ['a'] x l ∧ PutsApart (.plain .writes) ['a'] x l)
      (fun y ↦ Quiescent ['a'] y.sys ∧ (y.granted ['a']).lookup ['k'] = some [118] ∧
        y.sys.written ['a'] = some [7, 7])
      (ofMount (writeTwo ++ flushOne ++ dequeueFront ++ uploadFront) ++ setxattrBegun ++
        setxattrWritten ++ ofMount releaseHandle)
      (attributed (.plain .writes)) (by decide) (by decide)
  have hobeys : GuardedRun (xattrStep (.plain .writes) true)
      (XattrObeys (.plain .writes) ['a'] 0) (attributed (.plain .writes)) y := by
    refine hrun.mono (fun x l hown ↦ ?_)
    cases l with
    | mount l fresh => exact ⟨.inl hown.1, fun hputs ↦ (hown.2 hputs).imp AList.ext id⟩
    | write i outcome =>
      obtain ⟨⟨hok, hone⟩, -⟩ := hown
      refine ⟨by simp [hok], fun c hc _ c' hc' ↦ ?_⟩
      obtain ⟨only, honly⟩ := List.length_eq_one_iff.mp hone
      rw [honly] at hc hc'
      cases i with
      | zero => cases hc'
      | succ i => cases hc
    | _ => trivial
  obtain ⟨hcontents, hattributes⟩ := contents_and_attributes_kept rfl
    (show DeliveryStart (.plain .writes) ['a'] 0 (attributed (.plain .writes)).sys from
      freshPath_freshlyOpened _) rfl rfl hobeys hquiet
  exact ⟨y, hobeys, hquiet, hset, hw, hcontents _ hw, hattributes⟩

/-- An upload that lands between the read and the write of a `setxattr` is undone: the backend is
left with the older bytes. And an upload after a `setxattr` drops the attribute it set. -/
theorem uploads_and_attributes_undo_each_other :
    (∃ y, GuardedRun (xattrStep (.plain .writes) true) (OwnXattrStep (.plain .writes) ['a'])
        (attributed (.plain .writes)) y ∧ Quiescent ['a'] y.sys ∧ y.calls.isEmpty = true ∧
      y.sys.written ['a'] = some [8, 8, 8] ∧ y.sys.fs.backend ['a'] = some [7, 7]) ∧
    ∃ y, GuardedRun (xattrStep (.plain .writes) true) (OwnXattrStep (.plain .writes) ['a'])
        (attributed (.plain .writes)) y ∧ Quiescent ['a'] y.sys ∧ y.calls.isEmpty = true ∧
      (y.granted ['a']).lookup ['k'] = some [118] ∧ (y.userMeta ['a']).lookup ['k'] = none :=
  ⟨exists_guardedRun (xattrStep (.plain .writes) true) (OwnXattrStep (.plain .writes) ['a'])
      (fun y ↦ Quiescent ['a'] y.sys ∧ y.calls.isEmpty = true ∧
        y.sys.written ['a'] = some [8, 8, 8] ∧ y.sys.fs.backend ['a'] = some [7, 7])
      (ofMount (writeTwo ++ flushOne ++ dequeueFront ++ uploadFront ++ writeThree ++
          flushOne ++ dequeueFront) ++ setxattrBegun ++ ofMount uploadFront ++
        setxattrWritten ++ ofMount releaseHandle)
      (attributed (.plain .writes)) (by decide) (by decide),
    exists_guardedRun (xattrStep (.plain .writes) true) (OwnXattrStep (.plain .writes) ['a'])
      (fun y ↦ Quiescent ['a'] y.sys ∧ y.calls.isEmpty = true ∧
        (y.granted ['a']).lookup ['k'] = some [118] ∧ (y.userMeta ['a']).lookup ['k'] = none)
      (ofMount (writeTwo ++ flushOne ++ dequeueFront ++ uploadFront) ++ setxattrBegun ++
        setxattrWritten ++ ofMount (writeThree ++ flushOne ++ dequeueFront ++ uploadFront ++
          releaseHandle))
      (attributed (.plain .writes)) (by decide) (by decide)⟩

end Mntrs

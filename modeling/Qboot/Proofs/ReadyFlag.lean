import Qboot.Library.Run
import Qboot.Model.Update
/-!
# The ready flag and the hand-off

When the flag that ends the wait loop agrees with the state, and what every
transition into READY is justified by.
-/

namespace Qboot

open Library.Run UpdateMgr

variable {helper : Bool} {u : UpdateMgr}

/-! ## Flag and state -/

/-- The flag says READY exactly when the state does, so the wait loop ends
neither during a download nor in the wait window. -/
structure ReadyMatches (u : UpdateMgr) : Prop where
  flag : u.readyFlag = true ↔ u.state = .ready
  returns : u.pollReturns = true → u.state ≠ .recv ∧ u.state ≠ .wait

theorem readyMatches_iff :
    ReadyMatches u ↔ (u.readyFlag = true ↔ u.state = .ready) := by
  constructor
  · intro h
    exact h.flag
  · intro h
    refine ⟨h, fun hreturn => ?_⟩
    rw [h.mp hreturn]
    exact ⟨by simp, by simp⟩

/-- An event that leaves READY comes while the flag is still down. -/
def BeforeReady (u : UpdateMgr) : MgrEvent → Prop
  | .onRequest _ => u.readyFlag = false
  | .onStart _ => u.readyFlag = false
  | .onFinish ok _ => ok = true ∨ u.readyFlag = false
  | .onAbort _ => u.readyFlag = false
  | .notify success _ => success = true ∨ u.readyFlag = false
  | _ => True

theorem readyMatches_wait {u' : UpdateMgr} (hstate : u'.state ≠ .ready)
    (hflag : u'.readyFlag = u.readyFlag) :
    ReadyMatches u' ↔ u.readyFlag = false := by
  rw [readyMatches_iff, hflag]
  simp [hstate]

theorem readyMatches_ready {u' : UpdateMgr} (hstate : u'.state = .ready)
    (hflag : u'.readyFlag = true) : ReadyMatches u' :=
  readyMatches_iff.mpr ⟨fun _ => hstate, fun _ => hflag⟩

theorem readyMatches_register (waitMs idleMs : UInt32) (appValid : Bool)
    (tick : UInt32) :
    ReadyMatches (u.register helper waitMs idleMs appValid tick) := by
  have hcase := register_cases helper waitMs idleMs appValid tick u
  generalize u.register helper waitMs idleMs appValid tick = u' at hcase
  rw [readyMatches_iff]
  cases hcase with
  | asked => simp [onRequest]
  | resumed => simp
  | appInvalid => simp
  | appValid => simp

theorem readyMatches_pollRound (h : ReadyMatches u) (now tick : UInt32)
    (appValid recover : Bool) :
    ReadyMatches (u.pollRound helper now tick appValid recover) := by
  have hgiveUp {keepWaiting : UpdateMgr → UpdateMgr} {u' : UpdateMgr}
      (hflag : u.readyFlag = false)
      (hkeep : ∀ v : UpdateMgr, v.readyFlag = u.readyFlag → v.state = u.state →
        ReadyMatches (keepWaiting v))
      (hcase : GiveUpCase helper appValid recover keepWaiting u u') :
      ReadyMatches u' := by
    cases hcase with
    | appValid => exact readyMatches_ready (by simp) (by simp)
    | recovered => exact readyMatches_ready (by simp) (by simp)
    | refused => exact hkeep _ rfl rfl
    | probed => exact hkeep _ rfl rfl
  have hcase := pollRound_cases helper now tick appValid recover u
  generalize u.pollRound helper now tick appValid recover = u' at hcase
  cases hcase with
  | idle => exact h
  | waited hflag hstate hover hcase =>
      refine hgiveUp hflag (fun v hv hs => readyMatches_iff.mpr ?_) hcase
      show v.readyFlag = true ↔ v.state = .ready
      rw [hv, hs]
      exact h.flag
  | stalled hflag hstate hover hcase =>
      refine hgiveUp hflag (fun v hv hs => ?_) hcase
      exact (readyMatches_wait (u := u) (by simp) (by simpa using hv)).mpr hflag

theorem readyMatches_step (h : ReadyMatches u) (e : MgrEvent) :
    ReadyMatches (u.mgrStep helper e) ↔ BeforeReady u e := by
  cases e with
  | register waitMs idleMs appValid tick =>
      exact iff_of_true (readyMatches_register ..) trivial
  | onRequest tick => exact readyMatches_wait (by simp [mgrStep, onRequest]) rfl
  | onStart tick => exact readyMatches_wait (by simp [mgrStep, onStart]) rfl
  | onData tick =>
      refine iff_of_true (readyMatches_iff.mpr ?_) trivial
      simpa [mgrStep] using h.flag
  | onFinish ok tick =>
      cases ok with
      | true =>
          refine iff_of_true (readyMatches_ready ?_ ?_) (.inl rfl)
          · simp [mgrStep, onFinish]
          · simp [mgrStep, onFinish]
      | false =>
          refine (readyMatches_wait (u := u) ?_ ?_).trans (by simp [BeforeReady])
          · simp [mgrStep, onFinish]
          · cases helper <;> simp [mgrStep, onFinish]
  | onAbort tick => exact readyMatches_wait (by simp [mgrStep, onAbort]) rfl
  | pollEnter tick =>
      exact iff_of_true (readyMatches_iff.mpr h.flag) trivial
  | pollRound now tick appValid recover =>
      exact iff_of_true (readyMatches_pollRound h ..) trivial
  | notify success tick =>
      cases success with
      | true =>
          exact iff_of_true (readyMatches_iff.mpr h.flag) (.inl rfl)
      | false =>
          refine (readyMatches_wait (u := u) ?_ ?_).trans ?_
          · simp [mgrStep, notifyUpdateResult]
          · simp [mgrStep, notifyUpdateResult]
          · exact ⟨.inr, fun hdown => hdown.resolve_left Bool.false_ne_true⟩

/-- From registration on, flag and state agree in every state of a run exactly
when no event leaves READY while the flag is up. -/
theorem readyMatches_run (helper : Bool) (u : UpdateMgr) (waitMs idleMs : UInt32)
    (appValid : Bool) (tick : UInt32) (es : List MgrEvent) :
    Always (mgrStep helper) ReadyMatches
        (u.register helper waitMs idleMs appValid tick) es ↔
      Each (mgrStep helper) BeforeReady
        (u.register helper waitMs idleMs appValid tick) es := by
  have hstep (u : UpdateMgr) (e : MgrEvent) (_ : True) (h : ReadyMatches u) :
      ReadyMatches (u.mgrStep helper e) ↔ BeforeReady u e := readyMatches_step h e
  exact always_iff_each hstep (fun _ _ _ _ _ => trivial) trivial
    (readyMatches_register ..) es

/-- A download that starts after the manager has become ready is received with
the flag up. -/
theorem lateStart_unmatched :
    ¬Always (mgrStep false) ReadyMatches
      ((statics 5000 30000 .done).register false 5000 30000 true 0)
      [.onStart 10] := by
  intro h
  have hlast := h.last.flag
  revert hlast
  decide

/-! ## Hand-off -/

/-- The step from `u` with `e` goes into READY. -/
def EntersReady (helper : Bool) (u : UpdateMgr) (e : MgrEvent) : Prop :=
  u.state ≠ .ready ∧ (u.mgrStep helper e).state = .ready

/-- The calls that the step makes. -/
def newCalls (helper : Bool) (u : UpdateMgr) (e : MgrEvent) : List MgrCall :=
  (u.mgrStep helper e).calls.drop u.calls.length

/-- The stored reason after a call. -/
def MgrCall.reasonAfter (r : UpdReason) : MgrCall → UpdReason
  | .setReason r' => r'
  | _ => r

def storedAfter (stored : UpdReason) (calls : List MgrCall) : UpdReason :=
  calls.foldl MgrCall.reasonAfter stored

/-- The calls end with `on_ready_to_app`, and the reason stored by then, from
`stored` before them, asks for no update. -/
def HandsOff (stored : UpdReason) (calls : List MgrCall) : Prop :=
  ∃ before, calls = before ++ [.onReadyToApp] ∧
    (storedAfter stored before = .none ∨ storedAfter stored before = .done)

/-- A transition into READY is justified by a finished download or by a callback
that has agreed, and the stored reason asks for no update, before the hand-off
already. -/
def Justified (helper : Bool) (u : UpdateMgr) (e : MgrEvent) : Prop :=
  EntersReady helper u e →
    ((∃ tick, e = .onFinish true tick) ∨
      .isAppValid true ∈ newCalls helper u e ∨
      .tryRecover true ∈ newCalls helper u e) ∧
    ((u.mgrStep helper e).reason = .none ∨ (u.mgrStep helper e).reason = .done) ∧
    HandsOff u.reason (newCalls helper u e)

theorem ready_handsOff {v : UpdateMgr} (before : List MgrCall)
    (hcalls : v.calls = u.calls ++ before)
    (hasks : storedAfter u.reason before = .none ∨
      storedAfter u.reason before = .done) :
    HandsOff u.reason ((v.ready helper).calls.drop u.calls.length) := by
  have hclosing : storedAfter u.reason
      (before ++ if helper then v.closing else []) = storedAfter u.reason before := by
    unfold storedAfter closing
    rw [List.foldl_append]
    cases helper <;> cases v.dlHandle <;> rfl
  refine ⟨before ++ if helper then v.closing else [], ?_, hclosing ▸ hasks⟩
  rw [ready_calls, hcalls, List.append_assoc, List.drop_left, List.append_assoc]

/-- A poll iteration that enters READY has been agreed to, and clears the reason
before it hands off. -/
theorem pollRound_ready {now tick : UInt32} {appValid recover : Bool}
    (hbefore : u.state ≠ .ready)
    (hafter : (u.pollRound helper now tick appValid recover).state = .ready) :
    (.isAppValid true ∈
        (u.pollRound helper now tick appValid recover).calls.drop u.calls.length ∨
      .tryRecover true ∈
        (u.pollRound helper now tick appValid recover).calls.drop u.calls.length) ∧
    (u.pollRound helper now tick appValid recover).reason = .none ∧
    HandsOff u.reason
      ((u.pollRound helper now tick appValid recover).calls.drop u.calls.length) := by
  have hcase := pollRound_cases helper now tick appValid recover u
  generalize u.pollRound helper now tick appValid recover = u' at hcase hafter ⊢
  have hgiveUp {keepWaiting : UpdateMgr → UpdateMgr}
      (hkeep : ∀ v : UpdateMgr, v.state = u.state →
        (keepWaiting v).state ≠ .ready)
      (hcase : GiveUpCase helper appValid recover keepWaiting u u') :
      (.isAppValid true ∈ u'.calls.drop u.calls.length ∨
        .tryRecover true ∈ u'.calls.drop u.calls.length) ∧ u'.reason = .none ∧
        HandsOff u.reason (u'.calls.drop u.calls.length) := by
    cases hcase with
    | appValid =>
        refine ⟨.inl (by simp), by simp, ?_⟩
        exact ready_handsOff [.isAppValid true, .setReason .none] (by simp) (.inl rfl)
    | recovered =>
        refine ⟨.inr (by simp), by simp, ?_⟩
        exact ready_handsOff [.isAppValid false, .tryRecover true, .setReason .none]
          (by simp) (.inl rfl)
    | refused => exact absurd hafter (hkeep _ rfl)
    | probed => exact absurd hafter (hkeep _ rfl)
  cases hcase with
  | idle => exact absurd hafter hbefore
  | waited hflag hstate hover hcase =>
      exact hgiveUp (fun v hv => by simp [hv, hstate]) hcase
  | stalled hflag hstate hover hcase => exact hgiveUp (fun v _ => by simp) hcase

theorem justified_step (u : UpdateMgr) (e : MgrEvent) : Justified helper u e := by
  rintro ⟨hbefore, hafter⟩
  cases e with
  | register waitMs idleMs appValid tick =>
      have hcase := register_cases helper waitMs idleMs appValid tick u
      unfold newCalls
      simp only [mgrStep] at hafter ⊢
      generalize u.register helper waitMs idleMs appValid tick = u' at hcase hafter
      cases hcase with
      | asked => simp [onRequest] at hafter
      | resumed => simp at hafter
      | appInvalid => simp at hafter
      | appValid hreason =>
          exact ⟨.inr (.inl (by simp)), by simpa [asksNothing] using hreason,
            ready_handsOff [.getReason, .isAppValid true] (by simp) hreason⟩
  | onRequest tick => simp [mgrStep, onRequest] at hafter
  | onStart tick => simp [mgrStep, onStart] at hafter
  | onData tick =>
      exact absurd (by simpa [mgrStep] using hafter) hbefore
  | onFinish ok tick =>
      cases ok with
      | true =>
          refine ⟨.inl ⟨tick, rfl⟩, .inr (by simp [mgrStep, onFinish]), ?_⟩
          refine ready_handsOff
            (.leaveDownload :: (if helper then u.closing else []) ++ [.setReason .done])
            ?_ (.inr ?_)
          · cases helper <;> simp [closing]
          · rw [storedAfter, List.foldl_append]
            rfl
      | false => simp [mgrStep, onFinish] at hafter
  | onAbort tick => simp [mgrStep, onAbort] at hafter
  | pollEnter tick => exact absurd hafter hbefore
  | pollRound now tick appValid recover =>
      obtain ⟨hagreed, hreason, hhands⟩ := pollRound_ready hbefore hafter
      exact ⟨.inr hagreed, .inl hreason, hhands⟩
  | notify success tick =>
      cases success with
      | true => exact absurd hafter hbefore
      | false => simp [mgrStep, notifyUpdateResult] at hafter

/-! ## Recovery probes -/

def MgrCall.isProbe : MgrCall → Bool
  | .tryRecover _ => true
  | _ => false

def probes (u : UpdateMgr) : Nat := u.calls.countP MgrCall.isProbe

/-- The probes made, and the one that the gate still admits. -/
def probeBudget (u : UpdateMgr) : Nat :=
  probes u + if u.recoverProbeUsed then 0 else 1

def MgrEvent.opensProbe : MgrEvent → Bool
  | .register .. => true
  | .onStart _ => true
  | _ => false

theorem probes_congr {u' : UpdateMgr} {more : List MgrCall}
    (hcalls : u'.calls = u.calls ++ more) :
    probes u' = probes u + more.countP MgrCall.isProbe := by
  rw [probes, hcalls, List.countP_append]
  rfl

@[simp] theorem probes_call (c : MgrCall) :
    probes (u.call c) = probes u + if c.isProbe then 1 else 0 := by
  rw [probes_congr (u.call_calls c), List.countP_singleton]

@[simp] theorem probes_setReason (r : UpdReason) :
    probes (u.setReason r) = probes u := by
  simp [probes, MgrCall.isProbe]

@[simp] theorem probes_setState (tick : UInt32) (s : UpdState) :
    probes (u.setState tick s) = probes u := by
  simp [probes]

@[simp] theorem probes_closing : u.closing.countP MgrCall.isProbe = 0 := by
  unfold closing
  cases u.dlHandle <;> rfl

@[simp] theorem probes_ready : probes (u.ready helper) = probes u := by
  cases helper <;> simp [probes, MgrCall.isProbe]

@[simp] theorem probes_probe (recover : Bool) :
    probes (u.probe recover) = probes u + 1 := by
  simp [probes, MgrCall.isProbe]

theorem probeBudget_giveUp {appValid recover : Bool}
    {keepWaiting : UpdateMgr → UpdateMgr} {u' : UpdateMgr}
    (hkeep : ∀ v : UpdateMgr, probeBudget (keepWaiting v) = probeBudget v)
    (hcase : GiveUpCase helper appValid recover keepWaiting u u') :
    probeBudget u' ≤ probeBudget u := by
  cases hcase with
  | appValid => simp [probeBudget, MgrCall.isProbe]
  | recovered _ hprobe => simp [probeBudget, hprobe, MgrCall.isProbe]
  | refused _ hprobe =>
      rw [hkeep]
      simp [probeBudget, hprobe, MgrCall.isProbe]
  | probed _ hprobe =>
      rw [hkeep]
      simp [probeBudget, hprobe, MgrCall.isProbe]

theorem probeBudget_step {e : MgrEvent} (he : e.opensProbe = false) :
    probeBudget (u.mgrStep helper e) ≤ probeBudget u := by
  cases e with
  | register => cases he
  | onStart => cases he
  | onRequest tick => simp [mgrStep, onRequest, probeBudget]
  | onData tick => simp [mgrStep, probeBudget, probes]
  | onFinish ok tick =>
      cases ok <;> cases helper <;>
        simp [mgrStep, onFinish, probeBudget, MgrCall.isProbe, probes]
  | onAbort tick => simp [mgrStep, onAbort, probeBudget, MgrCall.isProbe]
  | pollEnter tick => exact le_refl _
  | pollRound now tick appValid recover =>
      have hcase := pollRound_cases helper now tick appValid recover u
      show probeBudget (u.pollRound helper now tick appValid recover) ≤ _
      generalize u.pollRound helper now tick appValid recover = u' at hcase
      cases hcase with
      | idle => exact le_refl _
      | waited hflag hstate hover hcase =>
          refine probeBudget_giveUp (fun v => ?_) hcase
          exact (rfl : probeBudget { v with waitStart := now } = probeBudget v)
      | stalled hflag hstate hover hcase =>
          exact probeBudget_giveUp (fun _ => by simp [probeBudget]) hcase
  | notify success tick =>
      cases success <;> simp [mgrStep, notifyUpdateResult, probeBudget]

theorem probes_run {es : List MgrEvent} (hes : ∀ e ∈ es, e.opensProbe = false) :
    probeBudget (run (mgrStep helper) u es) ≤ probeBudget u := by
  induction es generalizing u with
  | nil => exact le_refl _
  | cons e es ih =>
      calc
        probeBudget (run (mgrStep helper) u (e :: es)) ≤
            probeBudget (u.mgrStep helper e) :=
          ih fun e' he' => hes e' (List.mem_cons_of_mem e he')
        _ ≤ probeBudget u := probeBudget_step (hes e List.mem_cons_self)

/-- In every run, each transition into READY is justified, and between two calls
of `on_start` or `register` there is at most one recovery probe. -/
theorem handOff_justified (helper : Bool) (u : UpdateMgr) (es : List MgrEvent) :
    Each (mgrStep helper) (Justified helper) u es ∧
      ∀ front mid back, es = front ++ mid ++ back →
        (∀ e ∈ mid, e.opensProbe = false) →
        probes (run (mgrStep helper) u (front ++ mid)) ≤
          probes (run (mgrStep helper) u front) + 1 := by
  constructor
  · exact fun front e back _ => justified_step _ e
  · intro front mid back _ hmid
    have hbudget : probeBudget
        (run (mgrStep helper) (run (mgrStep helper) u front) mid) ≤
          probeBudget (run (mgrStep helper) u front) := probes_run hmid
    rw [run_append]
    unfold probeBudget at hbudget
    split at hbudget <;> split at hbudget <;> omega

end Qboot

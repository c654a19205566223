import Qboot.Library.Run
import Qboot.Model.Update
/-!
# Timeouts in milliseconds

The timestamps of the manager are in ticks and its limits in milliseconds.  Over
runs of events at a tick that is counted without wrapping, the two timeouts of
the poll loop are compared with the time that has really passed.
-/

namespace Qboot

open Library.Run UpdateMgr

/-! ## Timestamps -/

/-- The part of the manager that the timeouts depend on. -/
structure Timer where
  state : UpdState
  waitStart : UInt32
  downloadLast : UInt32
  waitMs : UInt32
  idleMs : UInt32

namespace UpdateMgr

def timer (u : UpdateMgr) : Timer :=
  ⟨u.state, u.waitStart, u.downloadLast, u.waitMs, u.idleMs⟩

section Fields

variable (u : UpdateMgr) (c : MgrCall) (r : UpdReason) (ok helper : Bool) (tick : UInt32)

@[simp] theorem call_timer : (u.call c).timer = u.timer := rfl
@[simp] theorem setReason_timer : (u.setReason r).timer = u.timer := rfl
@[simp] theorem probe_timer : (u.probe ok).timer = u.timer := rfl

@[simp] theorem downloadCleanup_timer : u.downloadCleanup.timer = u.timer := by
  unfold downloadCleanup
  split <;> rfl

@[simp] theorem setDownloadOk_timer : (u.setDownloadOk ok).timer = u.timer :=
  downloadCleanup_timer _

@[simp] theorem ready_timer :
    (u.ready helper).timer = { u.timer with state := .ready } := by
  cases helper with
  | false => rfl
  | true => exact downloadCleanup_timer _

@[simp] theorem setState_wait_timer :
    (u.setState tick .wait).timer = { u.timer with state := .wait, waitStart := tick } := rfl

@[simp] theorem setState_recv_timer :
    (u.setState tick .recv).timer =
      { u.timer with state := .recv, downloadLast := tick } := rfl

theorem downloading_timer (ref n : Nat) (erased : Bool) :
    (u.downloading ref n erased).timer = u.timer :=
  (setDownloadOk_timer _ false).trans (downloadCleanup_timer u)

end Fields

end UpdateMgr

/-! ## Runs with a clock -/

/-- The event, as it happens at the tick `now`. -/
def HelperEvent.stamp (now : UInt32) : HelperEvent → HelperEvent
  | .mgr (.register waitMs idleMs appValid _) => .mgr (.register waitMs idleMs appValid now)
  | .mgr (.onRequest _) => .mgr (.onRequest now)
  | .mgr (.onStart _) => .mgr (.onStart now)
  | .mgr (.onData _) => .mgr (.onData now)
  | .mgr (.onFinish ok _) => .mgr (.onFinish ok now)
  | .mgr (.onAbort _) => .mgr (.onAbort now)
  | .mgr (.pollEnter _) => .mgr (.pollEnter now)
  | .mgr (.pollRound _ _ appValid recover) => .mgr (.pollRound now now appValid recover)
  | .mgr (.notify success _) => .mgr (.notify success now)
  | .downloadBegin opened size erased _ => .downloadBegin opened size erased now
  | .downloadWrite off data ok _ => .downloadWrite off data ok now

/-- An iteration at `now` takes one of the two timeout branches. -/
def UpdateMgr.fires (u : UpdateMgr) (now : UInt32) : Bool :=
  !u.readyFlag && (u.state == .wait && u.waitOver now || u.state == .recv && u.idleOver now)

/-- The event starts the wait window: it asks for an update, ends a session
without a download, enters the poll loop, or is a timeout that waits on. -/
def startsWindow (helper : Bool) (u : UpdateMgr) : HelperEvent → Bool
  | .mgr (.register ..) => true
  | .mgr (.onRequest _) => true
  | .mgr (.onFinish ok _) => !ok
  | .mgr (.onAbort _) => true
  | .mgr (.pollEnter _) => true
  | .mgr (.pollRound now _ _ _) => u.fires now
  | .mgr (.notify success _) => !success
  | .downloadWrite _ _ ok _ => helper && u.dlHandle.isSome && !ok
  | _ => false

/-- The event is a call of `on_start` or `on_data`, or makes one. -/
def isTraffic (helper : Bool) (u : UpdateMgr) : HelperEvent → Bool
  | .mgr (.onStart _) => true
  | .mgr (.onData _) => true
  | .downloadBegin opened size erased _ => helper && opened.isSome && size.isSome && erased
  | .downloadWrite _ _ ok _ => helper && u.dlHandle.isSome && ok
  | _ => false

/-- The manager and the tick, counted without wrapping; the ticks at which the
wait window was last started and at which there was last traffic. -/
structure Clocked where
  mgr : UpdateMgr
  tick : Nat
  waitRef : Nat
  trafficRef : Nat

/-- Time passes, or something happens at the current tick. -/
inductive ClockStep where
  | pass (ticks : Nat)
  | call (e : HelperEvent)

namespace Clocked

def now (s : Clocked) : UInt32 := UInt32.ofNat s.tick

def step (helper : Bool) (s : Clocked) : ClockStep → Clocked
  | .pass ticks => { s with tick := s.tick + ticks }
  | .call e =>
      let e := e.stamp s.now
      { mgr := s.mgr.modeStep helper e
        tick := s.tick
        waitRef := if startsWindow helper s.mgr e then s.tick else s.waitRef
        trafficRef := if isTraffic helper s.mgr e then s.tick else s.trafficRef }

def registered (helper : Bool) (u : UpdateMgr) (waitMs idleMs : UInt32)
    (appValid : Bool) (tick : Nat) : Clocked where
  mgr := u.register helper waitMs idleMs appValid (UInt32.ofNat tick)
  tick := tick
  waitRef := tick
  trafficRef := tick

end Clocked

/-! ## What the timeouts should do -/

/-- In a poll iteration less than `2 ^ 32` ticks have passed since the refresh
that its timeout is measured from. -/
def ShortGap (s : Clocked) : ClockStep → Prop
  | .call (.mgr (.pollRound ..)) =>
      (s.mgr.state = .wait → s.tick - s.waitRef < 2 ^ 32) ∧
        (s.mgr.state = .recv → s.tick - s.trafficRef < 2 ^ 32)
  | _ => True

/-- At `rate` ticks in a second, at least `ms` milliseconds lie between the ticks
`earlier` and `later`. -/
def Passed (rate : Nat) (ms : UInt32) (earlier later : Nat) : Prop :=
  ms.toNat * rate ≤ 1000 * (later - earlier)

/-- The step takes a timeout branch: these, and nothing else in the poll loop, ask
whether the application is valid. -/
def AsksApp (u u' : UpdateMgr) : Prop :=
  ∃ ok, u.calls ++ [.isAppValid ok] <+: u'.calls

/-- A poll iteration takes the timeout branch of its state exactly when the time
has passed, and none in another state or after the hand-over. -/
def TimeoutExact (rate : Nat) (helper : Bool) (s : Clocked) : ClockStep → Prop
  | .call (.mgr (.pollRound now tick appValid recover)) =>
      let u := (s.step helper (.call (.mgr (.pollRound now tick appValid recover)))).mgr
      (s.mgr.readyFlag = false → s.mgr.state = .wait → s.mgr.waitMs ≠ 0 →
        (AsksApp s.mgr u ↔ Passed rate s.mgr.waitMs s.waitRef s.tick)) ∧
      (s.mgr.readyFlag = false → s.mgr.state = .recv → s.mgr.idleMs ≠ 0 →
        (AsksApp s.mgr u ↔ Passed rate s.mgr.idleMs s.trafficRef s.tick)) ∧
      (s.mgr.readyFlag = true ∨ s.mgr.state ≠ .wait ∧ s.mgr.state ≠ .recv →
        ¬AsksApp s.mgr u)
  | _ => True

/-- Counting milliseconds in ticks does not move the limit: a tick is no shorter
than a millisecond, and the difference adds up to less than a second. -/
def UnitsAgree (rate : Nat) (limit : UInt32) : Prop :=
  limit = 0 ∨ (rate ≤ 1000 ∧ limit.toNat * (1000 - rate) < 1000)

/-- A registration in the run asks for the same limits. -/
def KeepsLimits (waitMs idleMs : UInt32) : ClockStep → Prop
  | .call (.mgr (.register w i _ _)) => w = waitMs ∧ i = idleMs
  | _ => True

/-! ## The timestamps are the references -/

/-- In each of the two timed states the timestamp is the reference, cut to 32 bits. -/
structure Synced (waitMs idleMs : UInt32) (s : Clocked) : Prop where
  wait_le : s.waitRef ≤ s.tick
  traffic_le : s.trafficRef ≤ s.tick
  wait : s.mgr.timer.state = .wait → s.mgr.timer.waitStart = UInt32.ofNat s.waitRef
  recv : s.mgr.timer.state = .recv →
    s.mgr.timer.downloadLast = UInt32.ofNat s.trafficRef
  waitMs_eq : s.mgr.timer.waitMs = waitMs
  idleMs_eq : s.mgr.timer.idleMs = idleMs

/-- What an event at `now` does to the timestamps, where `win` and `act` tell
whether it starts the window and whether it is traffic. -/
structure TimerMoves (now : UInt32) (win act : Bool) (t t' : Timer) : Prop where
  wait : t'.state = .wait → if win then t'.waitStart = now
    else t.state = .wait ∧ t'.waitStart = t.waitStart
  recv : t'.state = .recv → if act then t'.downloadLast = now
    else t.state = .recv ∧ t'.downloadLast = t.downloadLast
  waitMs : t'.waitMs = t.waitMs
  idleMs : t'.idleMs = t.idleMs

theorem timerMoves_same (now : UInt32) (t : Timer) : TimerMoves now false false t t where
  wait := fun h => ⟨h, rfl⟩
  recv := fun h => ⟨h, rfl⟩
  waitMs := rfl
  idleMs := rfl

theorem timerMoves_ready (now : UInt32) (win act : Bool) (t : Timer) :
    TimerMoves now win act t { t with state := .ready } where
  wait := fun h => nomatch h
  recv := fun h => nomatch h
  waitMs := rfl
  idleMs := rfl

theorem timerMoves_wait (now : UInt32) (act : Bool) (t : Timer) :
    TimerMoves now true act t { t with state := .wait, waitStart := now } where
  wait := fun _ => rfl
  recv := fun h => nomatch h
  waitMs := rfl
  idleMs := rfl

theorem timerMoves_recv (now : UInt32) (win : Bool) (t : Timer) :
    TimerMoves now win true t { t with state := .recv, downloadLast := now } where
  wait := fun h => nomatch h
  recv := fun _ => rfl
  waitMs := rfl
  idleMs := rfl

variable {helper : Bool} {u : UpdateMgr} {now : UInt32}

theorem timerMoves_onData : TimerMoves now false true u.timer (u.onData now).timer := by
  unfold onData
  split
  · next hrecv =>
    exact ⟨fun h => absurd (hrecv.symm.trans h) (by decide), fun _ => rfl, rfl, rfl⟩
  · next hrecv => exact ⟨fun h => ⟨h, rfl⟩, fun h => absurd h hrecv, rfl, rfl⟩

theorem timerMoves_giveUp {appValid recover : Bool} {keepWaiting : UpdateMgr → UpdateMgr}
    {u' : UpdateMgr}
    (hkeep : ∀ v : UpdateMgr, v.timer = u.timer →
      TimerMoves now true false u.timer (keepWaiting v).timer)
    (hcase : GiveUpCase helper appValid recover keepWaiting u u') :
    TimerMoves now true false u.timer u'.timer := by
  cases hcase with
  | appValid hvalid =>
      rw [ready_timer, setReason_timer, call_timer]
      exact timerMoves_ready now true false _
  | recovered hvalid hprobe hrecover =>
      rw [ready_timer, setReason_timer, probe_timer, call_timer]
      exact timerMoves_ready now true false _
  | refused hvalid hprobe hrecover => exact hkeep _ rfl
  | probed hvalid hprobe => exact hkeep _ rfl

theorem fires_eq_false (h : u.readyFlag = true ∨
    ¬(u.state = .wait ∧ u.waitOver now = true) ∧
      ¬(u.state = .recv ∧ u.idleOver now = true)) : u.fires now = false := by
  unfold fires
  rcases h with h | ⟨hwait, hrecv⟩
  · simp [h]
  · cases hready : u.readyFlag <;> cases hstate : u.state <;> simp_all

theorem timerMoves_pollRound (appValid recover : Bool) :
    TimerMoves now (u.fires now) false u.timer
      (u.pollRound helper now now appValid recover).timer := by
  have hcase := pollRound_cases helper now now appValid recover u
  generalize u.pollRound helper now now appValid recover = u' at hcase
  cases hcase with
  | idle hidle =>
      rw [fires_eq_false hidle]
      exact timerMoves_same now u.timer
  | waited hflag hstate hover hcase =>
      have hfires : u.fires now = true := by simp [fires, hflag, hstate, hover]
      rw [hfires]
      refine timerMoves_giveUp (fun v hv => ?_) hcase
      have hkept : v.timer.state = .wait := by rw [hv]; exact hstate
      have hwaitMs : v.timer.waitMs = u.timer.waitMs := by rw [hv]
      have hidleMs : v.timer.idleMs = u.timer.idleMs := by rw [hv]
      exact ⟨fun _ => rfl, fun h => absurd (hkept.symm.trans h) (by decide), hwaitMs,
        hidleMs⟩
  | stalled hflag hstate hover hcase =>
      have hfires : u.fires now = true := by simp [fires, hflag, hstate, hover]
      rw [hfires]
      refine timerMoves_giveUp (fun v hv => ?_) hcase
      rw [setState_wait_timer, hv]
      exact timerMoves_wait now false u.timer

theorem timerMoves_onFinish (ok act : Bool) :
    TimerMoves now (!ok) act u.timer (u.onFinish helper ok now).timer := by
  unfold onFinish
  cases ok with
  | true =>
      cases helper with
      | true =>
          simp only [if_pos, ready_timer, setReason_timer, setDownloadOk_timer, call_timer]
          exact timerMoves_ready now false act u.timer
      | false => exact timerMoves_ready now false act u.timer
  | false =>
      cases helper with
      | true =>
          have htimer := setDownloadOk_timer (u.call .leaveDownload) false
          have hwaitMs : ((u.call .leaveDownload).setDownloadOk false).waitMs = u.waitMs :=
            congrArg Timer.waitMs htimer
          have hidleMs : ((u.call .leaveDownload).setDownloadOk false).idleMs = u.idleMs :=
            congrArg Timer.idleMs htimer
          exact ⟨fun _ => rfl, fun h => (nomatch h), hwaitMs, hidleMs⟩
      | false => exact timerMoves_wait now act u.timer

theorem timerMoves_register (waitMs idleMs : UInt32) (appValid : Bool) :
    TimerMoves now true false { u.timer with waitMs := waitMs, idleMs := idleMs }
      (u.register helper waitMs idleMs appValid now).timer := by
  have hcase := register_cases helper waitMs idleMs appValid now u
  generalize u.register helper waitMs idleMs appValid now = u' at hcase
  cases hcase with
  | asked hreason => exact timerMoves_wait now false _
  | resumed hask hreason => exact timerMoves_wait now false _
  | appInvalid hreason hvalid => exact timerMoves_wait now false _
  | appValid hreason hvalid =>
      rw [ready_timer]
      exact timerMoves_ready now true false _

theorem timerMoves_downloadBegin (opened size : Option Nat) (erased : Bool) :
    TimerMoves now false (opened.isSome && size.isSome && erased) u.timer
      (u.downloadBegin opened size erased now).2.timer := by
  have hclosed : (u.downloadCleanup.setDownloadOk false).timer = u.timer :=
    (setDownloadOk_timer _ false).trans (downloadCleanup_timer u)
  cases opened with
  | none =>
      have htimer : (u.downloadBegin none size erased now).2.timer = u.timer := hclosed
      rw [htimer]
      exact timerMoves_same now u.timer
  | some ref =>
      cases size with
      | none =>
          have htimer : (u.downloadBegin (some ref) none erased now).2.timer = u.timer :=
            hclosed
          rw [htimer]
          exact timerMoves_same now u.timer
      | some n =>
          cases erased with
          | true =>
              rw [downloadBegin_begun]
              have hstart : ((u.downloading ref n true).onStart now).timer =
                  { (u.downloading ref n true).timer with
                    state := .recv, downloadLast := now } := rfl
              rw [hstart, downloading_timer]
              exact timerMoves_recv now false u.timer
          | false =>
              rw [downloadBegin_unerased, downloadCleanup_timer, downloading_timer]
              exact timerMoves_same now u.timer

theorem timerMoves_downloadWrite (off : Nat) (data : List UInt8) (ok : Bool) :
    TimerMoves now (u.dlHandle.isSome && !ok) (u.dlHandle.isSome && ok) u.timer
      (u.downloadWrite off data ok now).2.timer := by
  unfold downloadWrite
  cases u.dlHandle with
  | none => exact timerMoves_same now u.timer
  | some ref =>
      cases ok with
      | true =>
          have hdata : TimerMoves now false true (u.call (.wrote off data true)).timer
              ((u.call (.wrote off data true)).onData now).timer := timerMoves_onData
          rwa [call_timer] at hdata
      | false =>
          have hfinish : TimerMoves now true false (u.call (.wrote off data false)).timer
              ((u.call (.wrote off data false)).onFinish true false now).timer :=
            timerMoves_onFinish false false
          rw [call_timer, ← downloadCleanup_timer
            ((u.call (.wrote off data false)).onFinish true false now)] at hfinish
          exact hfinish

/-- One event moves the timestamps as the references move. -/
theorem timerMoves_step (e : HelperEvent)
    (he : ∀ waitMs idleMs appValid tick, e = .mgr (.register waitMs idleMs appValid tick) →
      waitMs = u.timer.waitMs ∧ idleMs = u.timer.idleMs) :
    TimerMoves now (startsWindow helper u (e.stamp now)) (isTraffic helper u (e.stamp now))
      u.timer (u.modeStep helper (e.stamp now)).timer := by
  cases e with
  | mgr e =>
      cases e with
      | register waitMs idleMs appValid tick =>
          obtain ⟨rfl, rfl⟩ := he waitMs idleMs appValid tick rfl
          exact timerMoves_register u.waitMs u.idleMs appValid
      | onRequest tick => exact timerMoves_wait now false u.timer
      | onStart tick => exact timerMoves_recv now false u.timer
      | onData tick => exact timerMoves_onData
      | onFinish ok tick => exact timerMoves_onFinish ok false
      | onAbort tick => exact timerMoves_wait now false u.timer
      | pollEnter tick => exact ⟨fun _ => rfl, fun h => ⟨h, rfl⟩, rfl, rfl⟩
      | pollRound first later appValid recover => exact timerMoves_pollRound appValid recover
      | notify success tick =>
          cases success with
          | true => exact timerMoves_same now u.timer
          | false => exact timerMoves_wait now false u.timer
  | downloadBegin opened size erased tick =>
      cases helper with
      | true => exact timerMoves_downloadBegin opened size erased
      | false => exact timerMoves_same now u.timer
  | downloadWrite off data ok tick =>
      cases helper with
      | true => exact timerMoves_downloadWrite off data ok
      | false => exact timerMoves_same now u.timer

/-! ## Runs -/

variable {waitMs idleMs : UInt32} {s : Clocked}

theorem synced_registered (helper : Bool) (u : UpdateMgr) (waitMs idleMs : UInt32)
    (appValid : Bool) (tick : Nat) :
    Synced waitMs idleMs (Clocked.registered helper u waitMs idleMs appValid tick) := by
  have hmoves : TimerMoves (UInt32.ofNat tick) true false
      { u.timer with waitMs := waitMs, idleMs := idleMs }
      (u.register helper waitMs idleMs appValid (UInt32.ofNat tick)).timer :=
    timerMoves_register waitMs idleMs appValid
  have hno : (u.register helper waitMs idleMs appValid (UInt32.ofNat tick)).timer.state ≠
      .recv := by
    have hcase := register_cases helper waitMs idleMs appValid (UInt32.ofNat tick) u
    generalize u.register helper waitMs idleMs appValid (UInt32.ofNat tick) = u' at hcase
    cases hcase with
    | asked hreason => exact fun h => nomatch h
    | resumed hask hreason => exact fun h => nomatch h
    | appInvalid hreason hvalid => exact fun h => nomatch h
    | appValid hreason hvalid =>
        rw [ready_timer]
        exact fun h => nomatch h
  exact
    { wait_le := le_rfl
      traffic_le := le_rfl
      wait := hmoves.wait
      recv := fun h => absurd h hno
      waitMs_eq := hmoves.waitMs
      idleMs_eq := hmoves.idleMs }

theorem synced_step (h : Synced waitMs idleMs s) (l : ClockStep)
    (hl : KeepsLimits waitMs idleMs l) : Synced waitMs idleMs (s.step helper l) := by
  cases l with
  | pass ticks =>
      exact
        { wait_le := h.wait_le.trans (Nat.le_add_right _ _)
          traffic_le := h.traffic_le.trans (Nat.le_add_right _ _)
          wait := h.wait
          recv := h.recv
          waitMs_eq := h.waitMs_eq
          idleMs_eq := h.idleMs_eq }
  | call e =>
      have hmoves : TimerMoves s.now (startsWindow helper s.mgr (e.stamp s.now))
          (isTraffic helper s.mgr (e.stamp s.now)) s.mgr.timer
          (s.mgr.modeStep helper (e.stamp s.now)).timer := by
        refine timerMoves_step e fun w i appValid tick heq => ?_
        rw [heq] at hl
        rw [h.waitMs_eq, h.idleMs_eq]
        exact hl
      rw [Clocked.step]
      generalize startsWindow helper s.mgr (e.stamp s.now) = win at hmoves ⊢
      generalize isTraffic helper s.mgr (e.stamp s.now) = act at hmoves ⊢
      exact
        { wait_le := by
            cases win with
            | true => exact le_rfl
            | false => exact h.wait_le
          traffic_le := by
            cases act with
            | true => exact le_rfl
            | false => exact h.traffic_le
          wait := by
            intro hstate
            have hwait := hmoves.wait hstate
            cases win with
            | true => exact hwait
            | false => exact hwait.2.trans (h.wait hwait.1)
          recv := by
            intro hstate
            have hrecv := hmoves.recv hstate
            cases act with
            | true => exact hrecv
            | false => exact hrecv.2.trans (h.recv hrecv.1)
          waitMs_eq := hmoves.waitMs.trans h.waitMs_eq
          idleMs_eq := hmoves.idleMs.trans h.idleMs_eq }

/-! ## One poll iteration -/

theorem elapsed_eq {earlier later : Nat} (hle : earlier ≤ later)
    (hgap : later - earlier < 2 ^ 32) :
    (UInt32.ofNat later - UInt32.ofNat earlier).toNat = later - earlier := by
  rw [← UInt32.ofNat_sub hle, UInt32.toNat_ofNat']
  exact Nat.mod_eq_of_lt hgap

theorem limit_le_iff {limit : UInt32} {earlier later : Nat} (hle : earlier ≤ later)
    (hgap : later - earlier < 2 ^ 32) :
    limit ≤ UInt32.ofNat later - UInt32.ofNat earlier ↔ limit.toNat ≤ later - earlier := by
  rw [UInt32.le_iff_toNat_le, elapsed_eq hle hgap]

theorem zero_lt_of_ne {limit : UInt32} (h : limit ≠ 0) : 0 < limit := by
  rw [UInt32.lt_iff_toNat_lt]
  have hne : limit.toNat ≠ 0 := fun h0 => h (UInt32.toNat_inj.mp h0)
  exact Nat.pos_of_ne_zero hne

theorem passed_iff {rate : Nat} {limit : UInt32} (hagree : UnitsAgree rate limit)
    (hlimit : limit ≠ 0) (earlier later : Nat) :
    limit.toNat ≤ later - earlier ↔ Passed rate limit earlier later := by
  obtain ⟨hrate, hsmall⟩ := hagree.resolve_left hlimit
  have hle : limit.toNat * rate ≤ limit.toNat * 1000 := Nat.mul_le_mul_left _ hrate
  rw [Nat.mul_sub] at hsmall
  unfold Passed
  omega

theorem synced_wait_iff (h : Synced waitMs idleMs s) (hstate : s.mgr.state = .wait)
    (hlimit : s.mgr.waitMs ≠ 0) (hgap : s.tick - s.waitRef < 2 ^ 32) :
    s.mgr.waitOver s.now = true ↔ s.mgr.waitMs.toNat ≤ s.tick - s.waitRef := by
  have hstart : s.mgr.waitStart = UInt32.ofNat s.waitRef := h.wait hstate
  rw [waitOver, hstart, Bool.and_eq_true, decide_eq_true_eq, decide_eq_true_eq, Clocked.now,
    limit_le_iff h.wait_le hgap]
  exact and_iff_right (zero_lt_of_ne hlimit)

theorem synced_recv_iff (h : Synced waitMs idleMs s) (hstate : s.mgr.state = .recv)
    (hlimit : s.mgr.idleMs ≠ 0) (hgap : s.tick - s.trafficRef < 2 ^ 32) :
    s.mgr.idleOver s.now = true ↔ s.mgr.idleMs.toNat ≤ s.tick - s.trafficRef := by
  have hstart : s.mgr.downloadLast = UInt32.ofNat s.trafficRef := h.recv hstate
  rw [idleOver, hstart, Bool.and_eq_true, decide_eq_true_eq, decide_eq_true_eq, Clocked.now,
    limit_le_iff h.traffic_le hgap]
  exact and_iff_right (zero_lt_of_ne hlimit)

theorem not_asksApp_self (u : UpdateMgr) : ¬AsksApp u u := by
  rintro ⟨ok, hcalls⟩
  have hle := hcalls.length_le
  rw [List.length_append, List.length_singleton] at hle
  omega

theorem asksApp_giveUp {appValid recover : Bool} {keepWaiting : UpdateMgr → UpdateMgr}
    {u u' : UpdateMgr} (hkeep : ∀ v : UpdateMgr, (keepWaiting v).calls = v.calls)
    (hcase : GiveUpCase helper appValid recover keepWaiting u u') : AsksApp u u' := by
  have hready (ok : Bool) (v : UpdateMgr) (hv : u.calls ++ [.isAppValid ok] <+: v.calls) :
      AsksApp u ((v.setReason .none).ready helper) := by
    refine ⟨ok, hv.trans ?_⟩
    rw [ready_calls, setReason_calls, List.append_assoc]
    exact List.prefix_append _ _
  cases hcase with
  | appValid hvalid => exact hready true _ (List.prefix_refl _)
  | recovered hvalid hprobe hrecover => exact hready false _ (List.prefix_append _ _)
  | refused hvalid hprobe hrecover =>
      refine ⟨false, ?_⟩
      rw [hkeep]
      exact List.prefix_append _ _
  | probed hvalid hprobe =>
      refine ⟨false, ?_⟩
      rw [hkeep]
      exact List.prefix_refl _

theorem asksApp_pollRound_iff (now tick : UInt32) (appValid recover : Bool)
    (u : UpdateMgr) :
    AsksApp u (u.pollRound helper now tick appValid recover) ↔
      u.readyFlag = false ∧ (u.state = .wait ∧ u.waitOver now = true ∨
        u.state = .recv ∧ u.idleOver now = true) := by
  have hcase := pollRound_cases helper now tick appValid recover u
  generalize u.pollRound helper now tick appValid recover = u' at hcase
  cases hcase with
  | idle hidle =>
      refine iff_of_false (not_asksApp_self u) ?_
      rintro ⟨hflag, hover⟩
      obtain ⟨hwait, hrecv⟩ := hidle.resolve_left (by simp [hflag])
      exact hover.elim hwait hrecv
  | waited hflag hstate hover hcase =>
      have hkeep (v : UpdateMgr) : { v with waitStart := now }.calls = v.calls := rfl
      exact iff_of_true (asksApp_giveUp hkeep hcase) ⟨hflag, .inl ⟨hstate, hover⟩⟩
  | stalled hflag hstate hover hcase =>
      exact iff_of_true (asksApp_giveUp (fun v => setState_calls v tick .wait) hcase)
        ⟨hflag, .inr ⟨hstate, hover⟩⟩

theorem asksApp_wait_iff {e : HelperEvent} {now tick : UInt32} {appValid recover : Bool}
    (he : e = .mgr (.pollRound now tick appValid recover))
    (hflag : s.mgr.readyFlag = false) (hstate : s.mgr.state = .wait) :
    AsksApp s.mgr (s.step helper (.call e)).mgr ↔ s.mgr.waitOver s.now = true := by
  rw [he]
  refine (asksApp_pollRound_iff s.now s.now appValid recover s.mgr).trans ?_
  simp [hflag, hstate]

theorem asksApp_recv_iff {e : HelperEvent} {now tick : UInt32} {appValid recover : Bool}
    (he : e = .mgr (.pollRound now tick appValid recover))
    (hflag : s.mgr.readyFlag = false) (hstate : s.mgr.state = .recv) :
    AsksApp s.mgr (s.step helper (.call e)).mgr ↔ s.mgr.idleOver s.now = true := by
  rw [he]
  refine (asksApp_pollRound_iff s.now s.now appValid recover s.mgr).trans ?_
  simp [hflag, hstate]

theorem timeoutExact_of_synced {rate : Nat} (hwait : UnitsAgree rate waitMs)
    (hidle : UnitsAgree rate idleMs) (h : Synced waitMs idleMs s) (l : ClockStep)
    (hgap : ShortGap s l) : TimeoutExact rate helper s l := by
  unfold TimeoutExact
  split
  · next now tick appValid recover =>
    refine ⟨fun hflag hstate hlimit => ?_, fun hflag hstate hlimit => ?_, ?_⟩
    · have hagree : UnitsAgree rate s.mgr.waitMs := by
        rw [show s.mgr.waitMs = waitMs from h.waitMs_eq]
        exact hwait
      exact (asksApp_wait_iff rfl hflag hstate).trans
        ((synced_wait_iff h hstate hlimit (hgap.1 hstate)).trans
          (passed_iff hagree hlimit _ _))
    · have hagree : UnitsAgree rate s.mgr.idleMs := by
        rw [show s.mgr.idleMs = idleMs from h.idleMs_eq]
        exact hidle
      exact (asksApp_recv_iff rfl hflag hstate).trans
        ((synced_recv_iff h hstate hlimit (hgap.2 hstate)).trans
          (passed_iff hagree hlimit _ _))
    · intro hoff hasks
      obtain ⟨hflag, hover⟩ :=
        (asksApp_pollRound_iff s.now s.now appValid recover s.mgr).mp hasks
      obtain ⟨hwait, hrecv⟩ := hoff.resolve_left (by simp [hflag])
      exact hover.elim (fun h => hwait h.1) fun h => hrecv h.1
  · trivial

/-- In a run with short gaps both timeouts are exact where the units agree. -/
theorem timeoutExact_run {rate : Nat} (hwait : UnitsAgree rate waitMs)
    (hidle : UnitsAgree rate idleMs) {steps : List ClockStep}
    (hlimits : ∀ l ∈ steps, KeepsLimits waitMs idleMs l) (hs : Synced waitMs idleMs s)
    (hgaps : Each (Clocked.step helper) ShortGap s steps) :
    Each (Clocked.step helper) (TimeoutExact rate helper) s steps := by
  have hboth : Each (Clocked.step helper)
      (fun s l => ShortGap s l ∧ KeepsLimits waitMs idleMs l) s steps := by
    intro front l back hsplit
    exact ⟨hgaps front l back hsplit, hlimits l (by rw [hsplit]; simp)⟩
  refine hboth.imp_inv (I := Synced waitMs idleMs) ?_ ?_ hs
  · intro s l h hl
    exact timeoutExact_of_synced hwait hidle h l hl.1
  · intro s l h hl
    exact synced_step h l hl.2

/-! ## Where the units differ -/

/-- If the units do not agree, some number of ticks is on different sides of the
limit in the two units. -/
theorem exists_differing {rate : Nat} {limit : UInt32} (h : ¬UnitsAgree rate limit)
    (tick : Nat) : ∃ d, d < 2 ^ 32 ∧
      ¬(limit.toNat ≤ d ↔ Passed rate limit tick (tick + d)) := by
  obtain ⟨hlimit, hdiffer⟩ := not_or.mp h
  have hpos : 0 < limit.toNat := UInt32.lt_iff_toNat_lt.mp (zero_lt_of_ne hlimit)
  have hlt : limit.toNat < 2 ^ 32 := limit.toNat_lt
  unfold Passed
  by_cases hrate : rate ≤ 1000
  · have hlarge : 1000 ≤ limit.toNat * (1000 - rate) := by
      by_contra hsmall
      exact hdiffer ⟨hrate, not_le.mp hsmall⟩
    have hle : limit.toNat * rate ≤ limit.toNat * 1000 := Nat.mul_le_mul_left _ hrate
    rw [Nat.mul_sub] at hlarge
    -- one tick before the limit the time has passed already
    refine ⟨limit.toNat - 1, by omega, ?_⟩
    rw [Nat.add_sub_cancel_left]
    omega
  · have hgt : limit.toNat * 1000 < limit.toNat * rate :=
      Nat.mul_lt_mul_of_pos_left (not_le.mp hrate) hpos
    -- at the limit the time has not passed yet
    refine ⟨limit.toNat, hlt, ?_⟩
    rw [Nat.add_sub_cancel_left]
    omega

def iteration : ClockStep := .call (.mgr (.pollRound 0 0 false false))

def unfinished : UpdateMgr := UpdateMgr.statics 0 0 .inProgress

theorem wait_differs (helper : Bool) (idleMs : UInt32) {rate : Nat} (h : ¬UnitsAgree rate waitMs) :
    ∃ steps, (∀ l ∈ steps, KeepsLimits waitMs idleMs l) ∧
      Each (Clocked.step helper) ShortGap
        (Clocked.registered helper unfinished waitMs idleMs false 0) steps ∧
      ¬Each (Clocked.step helper) (TimeoutExact rate helper)
        (Clocked.registered helper unfinished waitMs idleMs false 0) steps := by
  obtain ⟨d, hd, hdiffer⟩ := exists_differing h 0
  have hsynced : Synced waitMs idleMs ((Clocked.registered helper unfinished waitMs idleMs
      false 0).step helper (.pass d)) :=
    synced_step (synced_registered helper unfinished waitMs idleMs false 0) _ trivial
  refine ⟨[.pass d, iteration], ?_, ?_, ?_⟩
  · intro l hl
    obtain rfl | rfl : l = .pass d ∨ l = iteration := by simpa using hl
    · trivial
    · trivial
  · rw [each_cons, each_cons]
    refine ⟨trivial, ⟨fun _ => ?_, fun hrecv => nomatch hrecv⟩, each_nil⟩
    have hgap : 0 + d - 0 < 2 ^ 32 := by omega
    exact hgap
  · intro hexact
    have hiff := (hexact [.pass d] iteration [] rfl).1 rfl rfl fun hzero => h (.inl hzero)
    have hover := synced_wait_iff hsynced rfl (fun hzero => h (.inl hzero))
      (show 0 + d - 0 < 2 ^ 32 by omega)
    have hcount : waitMs.toNat ≤ 0 + d - 0 ↔ Passed rate waitMs 0 (0 + d) :=
      hover.symm.trans ((asksApp_wait_iff rfl rfl rfl).symm.trans hiff)
    rw [Nat.sub_zero, Nat.zero_add] at hcount
    rw [Nat.zero_add] at hdiffer
    exact hdiffer hcount

theorem recv_differs (helper : Bool) (waitMs : UInt32) {rate : Nat} (h : ¬UnitsAgree rate idleMs) :
    ∃ steps, (∀ l ∈ steps, KeepsLimits waitMs idleMs l) ∧
      Each (Clocked.step helper) ShortGap
        (Clocked.registered helper unfinished waitMs idleMs false 0) steps ∧
      ¬Each (Clocked.step helper) (TimeoutExact rate helper)
        (Clocked.registered helper unfinished waitMs idleMs false 0) steps := by
  obtain ⟨d, hd, hdiffer⟩ := exists_differing h 0
  have hstart : Synced waitMs idleMs ((Clocked.registered helper unfinished waitMs idleMs
      false 0).step helper (.call (.mgr (.onStart 0)))) :=
    synced_step (synced_registered helper unfinished waitMs idleMs false 0) _ trivial
  have hsynced : Synced waitMs idleMs (((Clocked.registered helper unfinished waitMs idleMs
      false 0).step helper (.call (.mgr (.onStart 0)))).step helper (.pass d)) :=
    synced_step hstart _ trivial
  refine ⟨[.call (.mgr (.onStart 0)), .pass d, iteration], ?_, ?_, ?_⟩
  · intro l hl
    obtain rfl | rfl | rfl : l = .call (.mgr (.onStart 0)) ∨ l = .pass d ∨ l = iteration := by
      simpa using hl
    · trivial
    · trivial
    · trivial
  · rw [each_cons, each_cons, each_cons]
    refine ⟨trivial, trivial, ⟨fun hwait => (nomatch hwait), fun _ => ?_⟩, each_nil⟩
    have hgap : 0 + d - 0 < 2 ^ 32 := by omega
    exact hgap
  · intro hexact
    have hiff := (hexact [.call (.mgr (.onStart 0)), .pass d] iteration [] rfl).2.1 rfl rfl
      fun hzero => h (.inl hzero)
    have hover := synced_recv_iff hsynced rfl (fun hzero => h (.inl hzero))
      (show 0 + d - 0 < 2 ^ 32 by omega)
    have hcount : idleMs.toNat ≤ 0 + d - 0 ↔ Passed rate idleMs 0 (0 + d) :=
      hover.symm.trans ((asksApp_recv_iff rfl rfl rfl).symm.trans hiff)
    rw [Nat.sub_zero, Nat.zero_add] at hcount
    rw [Nat.zero_add] at hdiffer
    exact hdiffer hcount

/-- The timeouts of every run with these limits are exact if and only if the
units agree at both limits. -/
theorem timeouts_exact_iff (helper : Bool) (rate : Nat) (waitMs idleMs : UInt32) :
    (∀ (u : UpdateMgr) (appValid : Bool) (tick : Nat) (steps : List ClockStep),
      (∀ l ∈ steps, KeepsLimits waitMs idleMs l) →
      Each (Clocked.step helper) ShortGap
        (Clocked.registered helper u waitMs idleMs appValid tick) steps →
      Each (Clocked.step helper) (TimeoutExact rate helper)
        (Clocked.registered helper u waitMs idleMs appValid tick) steps) ↔
      UnitsAgree rate waitMs ∧ UnitsAgree rate idleMs := by
  constructor
  · intro hall
    constructor
    · by_contra hdiffer
      obtain ⟨steps, hlimits, hgaps, hno⟩ :=
        wait_differs helper idleMs hdiffer
      exact hno (hall unfinished false 0 steps hlimits hgaps)
    · by_contra hdiffer
      obtain ⟨steps, hlimits, hgaps, hno⟩ :=
        recv_differs helper waitMs hdiffer
      exact hno (hall unfinished false 0 steps hlimits hgaps)
  · rintro ⟨hwait, hidle⟩ u appValid tick steps hlimits hgaps
    exact timeoutExact_run hwait hidle hlimits
      (synced_registered helper u waitMs idleMs appValid tick) hgaps

/-- At 100 ticks in a second a wait window of 3000 milliseconds is still open
after 3 seconds. -/
theorem hundredTicks_waits :
    Each (Clocked.step false) ShortGap
        (Clocked.registered false unfinished 3000 60000 false 0) [.pass 300, iteration] ∧
      ¬Each (Clocked.step false) (TimeoutExact 100 false)
        (Clocked.registered false unfinished 3000 60000 false 0)
        [.pass 300, iteration] := by
  constructor
  · rw [each_cons, each_cons]
    refine ⟨trivial, ⟨fun _ => ?_, fun hrecv => (nomatch hrecv)⟩, each_nil⟩
    decide
  · intro hexact
    have hiff := (hexact [.pass 300] iteration [] rfl).1 rfl rfl (by decide)
    have hover := (asksApp_wait_iff rfl rfl rfl).mp (hiff.mpr (by unfold Passed; decide))
    exact absurd hover (by decide)

end Qboot
